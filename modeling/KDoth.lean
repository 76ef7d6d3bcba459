import KDoth.Collections.Iteration
import KDoth.Map.Conservation
import KDoth.Map.Atomicity
import KDoth.Objects.Overwrite
import KDoth.Objects.Popping
import KDoth.Objects.CountWrap
import KDoth.Files.RoundTrip
import KDoth.Files.Closing
import KDoth.Files.Opening
import KDoth.Strings.FormatErrors
import KDoth.Strings.HashCollisions
import KDoth.Memory.OutOfMemory
import KDoth.Threads.Lifetime
import KDoth.Threads.KThread
import KDoth.Threads.CountDownResults
import KDoth.Threads.Stopping
import KDoth.Threads.Teardown
import KDoth.Threads.ConstructionCleanup
import KDoth.Objects.SharedTeardown
import KDoth.Threads.KMutex
import KDoth.Files.Leftovers
import KDoth.Threads.LatchSections
import KDoth.Objects.SharedSafety
import KDoth.Map.Amortized
import KDoth.Map.Utilization
import KDoth.Collections.ListCursor
import KDoth.Collections.ArrayCursor
import KDoth.Threads.ForkJoinProgress
