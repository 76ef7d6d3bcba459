import KDoth.Collections.KArray
import KDoth.Collections.KList
import Mathlib.Data.Rat.Defs
import Mathlib.Algebra.Order.Ring.Unbundled.Rat

/-
  The hash map of `kmap.c` over the process state.

  `KMapSetValue` and `KMapRehashIfNecessary` call each other:
  the temporary map of a rehash is filled with
  `KMapSetValue`, which may rehash in turn. The recursion is
  cut by a bound on the nesting of rehashes, and `setValue`
  starts with one that is never used up.

  Key definitions include:
    * `KMapEntry`
    * `KMap`
    * `KMap.allocWithBucketCount`
    * `KMap.setValueNoRehash`
    * `KMap.rehashIfNecessary`
    * `KMap.setValue`
    * `KMap.getValue`
    * `KMap.removeValue`
    * `KMap.deInit`
-/

------------------------------------------------------------
-- Entries
------------------------------------------------------------

namespace KDoth

structure KMapEntry where
  address : Nat
  key : KObjectRef
  value : KObjectRef
deriving DecidableEq, Repr

namespace KMapEntry

/- `KMapEntryDeInit`. -/
def deInit (entry : KMapEntry) : Call Unit := do
  KObject.release entry.key
  KObject.release entry.value

instance : KObject KMapEntry where
  retain entry := objectRetain entry.address
  release entry := objectRelease entry.address entry.deInit

/- `KMapEntryNew` on a key and a value that are not NULL. -/
def new
    (allocator : Allocator)
    (key value : KObjectRef) :
    Call (Option KMapEntry) := do
  match ← objectNew allocator .kMapEntry with
  | none => pure none
  | some address =>
      KObject.retain key
      KObject.retain value
      pure (some
        { address := address, key := key, value := value })

/-
  The first entry with an equal key and its position. The
  searched key is the left argument of `equal`.
-/
def find?
    (equal : KObjectRef → KObjectRef → Bool)
    (key : KObjectRef) :
    List KMapEntry → Option (Nat × KMapEntry)
| [] => none
| entry :: entries =>
    if equal key entry.key then
      some (0, entry)
    else
      match find? equal key entries with
      | none => none
      | some (i, found) => some (i + 1, found)

/-
  The loop of `KMapSetValueNoRehash` over a bucket, for some
  iterations from a position on.
-/
def search
    (equal : KObjectRef → KObjectRef → Bool)
    (key : KObjectRef)
    (bucket : KList KMapEntry) :
    Nat → Nat → Call (Option (Nat × KMapEntry))
| 0, _ => pure none
| n + 1, i => do
    let entry ← kAssertSome (bucket.getObjectAtIndex i)
    if equal key entry.key then
      pure (some (i, entry))
    else
      search equal key bucket n (i + 1)

end KMapEntry

end KDoth

------------------------------------------------------------
-- Maps
------------------------------------------------------------

namespace KDoth

/- `kMapInitialBucketsSize`. -/
def kMapInitialBucketsSize : Nat := 16

/- `kMapMaxLoadFactor`. -/
def kMapMaxLoadFactor : ℚ := 1

/- `kMapBucketGrowthFactor`. -/
def kMapBucketGrowthFactor : Nat := 2

structure KMap where
  address : Nat
  hash : KObjectRef → UInt64
  equal : KObjectRef → KObjectRef → Bool
  buckets : Option (KArray (KList KMapEntry))
  objectCount : Nat

namespace KMap

/- `KMapDeInit`. -/
def deInit (map : KMap) : Call Unit :=
  KObject.releaseOrNull map.buckets

instance : KObject KMap where
  retain map := objectRetain map.address
  release map := objectRelease map.address map.deInit

/- `KArrayGetLength(map->buckets)`. -/
def bucketCount (map : KMap) : Nat :=
  match map.buckets with
  | none => 0
  | some buckets => buckets.getLength

/- `KMapGetCount`. -/
def getCount (map : KMap) : Nat :=
  map.objectCount

/-
  `KMapGetLoadFactor`. The quotient is exact, as the double
  one is below 2^28 objects and buckets.
-/
def getLoadFactor (map : KMap) : ℚ :=
  (map.objectCount : ℚ) / (map.bucketCount : ℚ)

/- Add the empty buckets of a new map. -/
def addBuckets
    (allocator : Allocator)
    (map : KMap) :
    Nat → KArray (KList KMapEntry) → Call (Option KMap)
| 0, buckets =>
    pure (some { map with buckets := some buckets })
| n + 1, buckets => do
    match ← KList.new allocator with
    | none =>
        KObject.release { map with buckets := some buckets }
        pure none
    | some bucket =>
        let (buckets, added) ←
          buckets.addObject allocator (some bucket)
        KObject.release bucket
        if added then
          addBuckets allocator map n buckets
        else
          KObject.release { map with buckets := some buckets }
          pure none

/-
  `KMapAllocWithBucketCount`, with `hash` and `equal` not
  NULL. They are stored at the end, after the buckets exist.
-/
def allocWithBucketCount
    (allocator : Allocator)
    (hash : KObjectRef → UInt64)
    (equal : KObjectRef → KObjectRef → Bool)
    (bucketCount : Nat) :
    Call (Option KMap) := do
  if bucketCount = 0 then
    pure none
  else
    match ← objectNew allocator .kMap with
    | none => pure none
    | some address =>
        let map : KMap :=
          { address := address
            hash := hash
            equal := equal
            buckets := none
            objectCount := 0 }
        match ← KArray.new allocator with
        | none =>
            KObject.release map
            pure none
        | some buckets =>
            map.addBuckets allocator bucketCount buckets

/- `KMapNew`. -/
def new
    (allocator : Allocator)
    (hash : KObjectRef → UInt64)
    (equal : KObjectRef → KObjectRef → Bool) :
    Call (Option KMap) :=
  allocWithBucketCount allocator hash equal
    kMapInitialBucketsSize

/- The index computed by `KMapGetBucket`. -/
def bucketIndex (map : KMap) (key : KObjectRef) : Nat :=
  (map.hash key).toNat % map.bucketCount

/- `KArrayGetObjectAtIndex(map->buckets, i)`. -/
def bucketAt
    (map : KMap)
    (i : Nat) :
    Option (KList KMapEntry) :=
  match map.buckets with
  | none => none
  | some buckets => buckets.getObjectAtIndex i

/- `KMapGetBucket`. -/
def getBucket
    (map : KMap)
    (key : KObjectRef) :
    Option (KList KMapEntry) :=
  map.bucketAt (map.bucketIndex key)

/- Write a changed bucket back to where it was read. -/
def putBucket
    (map : KMap)
    (key : KObjectRef)
    (bucket : KList KMapEntry) : KMap :=
  match map.buckets with
  | none => map
  | some buckets =>
      { map with
        buckets := some
          { buckets with
            slots :=
              buckets.slots.set (map.bucketIndex key) bucket } }

/- Every entry of the map, bucket by bucket. -/
def entries (map : KMap) : List KMapEntry :=
  match map.buckets with
  | none => []
  | some buckets => buckets.slots.flatMap KList.items

/- `KMapSetValueNoRehash`. -/
def setValueNoRehash
    (allocator : Allocator)
    (map : KMap)
    (key value : Option KObjectRef) :
    Call (KMap × Bool) := do
  match value, key with
  | none, _ => pure (map, false)
  | some _, none => pure (map, false)
  | some value, some key =>
      match map.getBucket key with
      | none => pure (map, false)
      | some bucket =>
          match ←
            KMapEntry.search map.equal key bucket
              bucket.getCount 0 with
          | some (i, entry) =>
              if value = entry.value then
                -- Already in the map.
                pure (map, true)
              else
                KObject.release entry.value
                KObject.retain value
                pure
                  (map.putBucket key
                      { bucket with
                        items :=
                          bucket.items.set i
                            { entry with value := value } },
                    true)
          | none =>
              let newEntry ← KMapEntry.new allocator key value
              let (bucket, added) ←
                bucket.addObject allocator newEntry
              KObject.releaseOrNull newEntry
              if added then
                pure
                  ({ map.putBucket key bucket with
                      objectCount := map.objectCount + 1 },
                    true)
              else
                pure (map, false)

/- `KMapSetValue`, given how the map rehashes. -/
def setValueWith
    (allocator : Allocator)
    (rehash : KMap → Call (KMap × Bool))
    (map : KMap)
    (key value : Option KObjectRef) :
    Call (KMap × Bool) := do
  let (map, set) ← map.setValueNoRehash allocator key value
  if set then
    let (map, _) ← rehash map
    pure (map, true)
  else
    pure (map, false)

/-
  The inner loop of `KMapRehashIfNecessary` over the entries
  of a bucket. It stops at the first one that cannot be set.
-/
def copyBucket
    (setValue :
      KMap → Option KObjectRef → Option KObjectRef →
        Call (KMap × Bool))
    (bucket : KList KMapEntry) :
    Nat → Nat → KMap → Call (KMap × Bool)
| 0, _, newMap => pure (newMap, true)
| n + 1, j, newMap => do
    let entry ← kAssertSome (bucket.getObjectAtIndex j)
    let (newMap, set) ←
      setValue newMap (some entry.key) (some entry.value)
    if set then
      copyBucket setValue bucket n (j + 1) newMap
    else
      pure (newMap, false)

/- The outer loop, over the buckets. -/
def copyBuckets
    (setValue :
      KMap → Option KObjectRef → Option KObjectRef →
        Call (KMap × Bool))
    (map : KMap) :
    Nat → Nat → KMap → Call (KMap × Bool)
| 0, _, newMap => pure (newMap, true)
| n + 1, i, newMap => do
    let bucket ← kAssertSome (map.bucketAt i)
    let (newMap, copied) ←
      copyBucket setValue bucket bucket.getCount 0 newMap
    if copied then
      copyBuckets setValue map n (i + 1) newMap
    else
      pure (newMap, false)

/-
  `KMapRehashIfNecessary`, for rehashes nested to a bounded
  depth.
-/
def rehashIfNecessary
    (allocator : Allocator) :
    Nat → KMap → Call (KMap × Bool)
| 0, map =>
    if map.getLoadFactor < kMapMaxLoadFactor then
      pure (map, true)
    else
      throw .outOfFuel
| depth + 1, map => do
    if map.getLoadFactor < kMapMaxLoadFactor then
      pure (map, true)
    else
      let newBucketCount :=
        map.bucketCount * kMapBucketGrowthFactor
      match ←
        allocWithBucketCount allocator map.hash map.equal
          newBucketCount with
      | none => pure (map, false)
      | some newMap =>
          let (newMap, copied) ←
            copyBuckets
              (setValueWith allocator
                (rehashIfNecessary allocator depth))
              map map.bucketCount 0 newMap
          if copied then
            kAssert (map.getCount == newMap.getCount)
            KObject.release
              { newMap with buckets := map.buckets }
            pure
              ({ map with buckets := newMap.buckets }, true)
          else
            KObject.release newMap
            pure (map, false)

/- `KMapSetValue`. -/
def setValue
    (allocator : Allocator)
    (map : KMap)
    (key value : Option KObjectRef) :
    Call (KMap × Bool) :=
  setValueWith allocator
    (rehashIfNecessary allocator (map.objectCount + 1))
    map key value

/- `KMapGetValue`. -/
def getValue
    (map : KMap)
    (key : Option KObjectRef) :
    Option KObjectRef :=
  match key with
  | none => none
  | some key =>
      match map.getBucket key with
      | none => none
      | some bucket =>
          match KMapEntry.find? map.equal key bucket.items with
          | none => none
          | some (_, entry) => some entry.value

/-
  `KMapRemoveValue`. The reference that
  `KListRemoveObjectAtIndex` hands over is not released.
-/
def removeValue
    (map : KMap)
    (key : Option KObjectRef) :
    KMap × Bool :=
  match key with
  | none => (map, false)
  | some key =>
      match map.getBucket key with
      | none => (map, false)
      | some bucket =>
          match KMapEntry.find? map.equal key bucket.items with
          | none => (map, false)
          | some (i, _) =>
              match bucket.removeObjectAtIndex i with
              | (_, none) => (map, false)
              | (bucket, some _) =>
                  ({ map.putBucket key bucket with
                      objectCount := map.objectCount - 1 },
                    true)

end KMap

end KDoth
