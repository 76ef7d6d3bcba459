import KDoth.Foundations.TransitionSystem
import KDoth.Threads.KSemaphore

/-
  The mutex of `kmutex.c`: a semaphore that starts at one,
  and the binary semaphore that the library describes it as.

  Key definitions include:
    * `KMutex.new`
    * `KMutex.machine`
    * `BinarySemaphore.machine`
    * `KMutex.Conforms`
    * `KMutex.clients`

  Key theorems include:
    * `KMutex.new_eq`
    * `KMutex.binary_iff`
    * `KMutex.Guarded.step`
    * `KMutex.mutual_exclusion`
-/

------------------------------------------------------------
-- The Mutex Of The Library
------------------------------------------------------------

namespace KDoth

/- What threads do with a mutex. -/
inductive MutexStep (Thread : Type) where
  | lock (t : Thread)
  | interrupt (t : Thread)
  | pass (t : Thread)
  | unlock (t : Thread)
deriving DecidableEq, Repr

/- What a step on a mutex is to its semaphore. -/
def MutexStep.onSemaphore
    {Thread : Type} :
    MutexStep Thread → SemaphoreStep Thread
| .lock t => .wait t
| .interrupt t => .interrupt t
| .pass t => .pass t
| .unlock t => .signal t

/- A mutex. A `sema` that is NULL is `none`. -/
structure KMutex (Thread : Type) where
  sema : Option (KSemaphore Thread)
deriving DecidableEq

namespace KMutex

variable {Thread : Type} [DecidableEq Thread]

/- `KMutexInit`, whose semaphore is granted or not. -/
def init (granted : Bool) (b : BackEnd) : KMutex Thread where
  sema := KSemaphore.new granted b 1

/-
  `KMutexNew`. The object of the mutex is granted or not, and
  so is that of its semaphore.
-/
def new
    (granted semaGranted : Bool)
    (b : BackEnd) :
    Option (KMutex Thread) :=
  if granted then
    let mutex := init semaGranted b
    match mutex.sema with
    | none => none
    | some _ => some mutex
  else none

/-
  `KMutexLock` and `KMutexUnlock` on a reference, NULL or
  not. Without a semaphore both return false at once.
-/
def step
    (b : BackEnd) :
    Option (KMutex Thread) →
      MutexStep Thread →
        Option (Option Bool × Option (KMutex Thread))
| some ⟨some sema⟩, l =>
    match sema.step b l.onSemaphore with
    | none => none
    | some (v, sema') => some (v, some ⟨some sema'⟩)
| mutex, .lock _ => some (some false, mutex)
| mutex, .unlock _ => some (some false, mutex)
| _, .interrupt _ => none
| _, .pass _ => none

/- A reference to a mutex as a machine. -/
def machine (b : BackEnd) :
    Machine (Option (KMutex Thread)) (MutexStep Thread)
      (Option Bool) where
  step := step b

end KMutex

end KDoth

------------------------------------------------------------
-- The Binary Semaphore
------------------------------------------------------------

namespace KDoth

/- A lock that is taken or free, and who waits for it. -/
structure BinarySemaphore (Thread : Type) where
  locked : Bool
  waiting : Finset Thread
deriving DecidableEq

namespace BinarySemaphore

variable {Thread : Type} [DecidableEq Thread]

def new : BinarySemaphore Thread where
  locked := false
  waiting := ∅

/-
  A lock passes when nobody has it. An unlock frees it and
  returns whether it was taken.
-/
def step
    (s : BinarySemaphore Thread) :
    MutexStep Thread →
      Option (Option Bool × BinarySemaphore Thread)
| .lock t =>
    if t ∈ s.waiting then none
    else some (none, { s with waiting := insert t s.waiting })
| .interrupt t =>
    if t ∈ s.waiting then some (none, s) else none
| .pass t =>
    if t ∈ s.waiting ∧ s.locked = false then
      some
        (some true,
          { locked := true
            waiting := s.waiting.erase t })
    else none
| .unlock t =>
    if t ∈ s.waiting then none
    else some (some s.locked, { s with locked := false })

/- The binary semaphore as a machine. -/
def machine :
    Machine (BinarySemaphore Thread) (MutexStep Thread)
      (Option Bool) where
  step := step

end BinarySemaphore

namespace KMutex

variable {Thread : Type} [DecidableEq Thread]

/- A mutex shows whether it can be passed and who waits. -/
def Views
    (mutex : Option (KMutex Thread))
    (s : BinarySemaphore Thread) : Prop :=
  ∃ sema,
    mutex = some ⟨some sema⟩ ∧
      sema.handle.count = (if s.locked then 0 else 1) ∧
        sema.handle.waiting = s.waiting

/-
  A new mutex and a free binary semaphore cannot be told
  apart by the steps.
-/
def Conforms
    (b : BackEnd)
    (steps : List (MutexStep Thread)) : Prop :=
  (machine b).Alike BinarySemaphore.machine Views
    (new true true b) BinarySemaphore.new steps

end KMutex

/-
  The unlocks that a back end treats as the binary semaphore
  does. On POSIX the lock has to be taken. On Darwin a thread
  has to wait for it as well, or the unlock returns false.
-/
def BackEnd.Unlocks
    {Thread : Type}
    (b : BackEnd)
    (s : BinarySemaphore Thread) :
    MutexStep Thread → Prop
| .unlock _ =>
    match b with
    | .posix => s.locked = true
    | .darwin => s.locked = true ∧ s.waiting.Nonempty
    | .windows => True
| _ => True

end KDoth

------------------------------------------------------------
-- Creation
------------------------------------------------------------

namespace KDoth

namespace KMutex

variable {Thread : Type}
variable {b : BackEnd}

/- Every back end has a semaphore that starts at one. -/
theorem represents_one (b : BackEnd) : b.Represents 1 := by
  cases b with
  | posix => show (1 : UInt64).toNat < 2 ^ 32; decide
  | darwin => show (1 : UInt64).toNat < 2 ^ 63; decide
  | windows =>
      show 0 < (1 : UInt64).toNat ∧ (1 : UInt64).toNat < 2 ^ 31
      decide

/- The semaphore of a new mutex. -/
def fresh (b : BackEnd) : KSemaphore Thread where
  handle := .created 1 (KSemaphore.maximumOf b 1)

theorem new_semaphore :
    KSemaphore.new true b 1 =
      some (fresh b : KSemaphore Thread) := by
  have hHandle :
      (KSemaphore.newHandle 1 b :
          Option (SemaphoreHandle Thread)) =
        some
          (.created (1 : UInt64).toNat
            (KSemaphore.maximumOf b 1)) :=
    KSemaphore.newHandle_of_represents (represents_one b)
  simp only [KSemaphore.new, if_true, hHandle]
  rfl

/- A mutex is made exactly when both objects are granted. -/
theorem new_eq (granted semaGranted : Bool) :
    (new granted semaGranted b : Option (KMutex Thread)) =
      if granted && semaGranted then some ⟨some (fresh b)⟩
      else none := by
  cases granted with
  | false => rfl
  | true =>
      cases semaGranted with
      | false => rfl
      | true =>
          simp only [new, init, new_semaphore, if_true,
            Bool.and_self]

end KMutex

end KDoth

------------------------------------------------------------
-- Steps On The Semaphore
------------------------------------------------------------

namespace KDoth

namespace KMutex

variable {Thread : Type} [DecidableEq Thread]
variable {b : BackEnd}

/- The mutex is the binary semaphore it shows. -/
structure Shows
    (b : BackEnd)
    (sema : KSemaphore Thread)
    (s : BinarySemaphore Thread) : Prop where
  maximum : sema.handle.maximum = KSemaphore.maximumOf b 1
  count : sema.handle.count = if s.locked then 0 else 1
  waiting : sema.handle.waiting = s.waiting

omit [DecidableEq Thread] in
theorem Shows.fresh :
    Shows b (fresh b : KSemaphore Thread)
      BinarySemaphore.new where
  maximum := rfl
  count := rfl
  waiting := rfl

/- A unit is posted to a lock that is taken. -/
omit [DecidableEq Thread] in
theorem Shows.posted
    {sema : KSemaphore Thread}
    {s : BinarySemaphore Thread}
    (hShows : Shows b sema s)
    (hLocked : s.locked = true) :
    Shows b ⟨sema.handle.posted⟩ { s with locked := false } :=
  by
  have hCount : sema.handle.count = 0 := by
    simpa [hLocked] using hShows.count
  exact
    { maximum := hShows.maximum
      count := by
        simp [SemaphoreHandle.posted, hCount]
      waiting := hShows.waiting }

/- What an unlock returns when the lock is taken. -/
omit [DecidableEq Thread] in
theorem Shows.signal_locked
    {sema : KSemaphore Thread}
    {s : BinarySemaphore Thread}
    (hShows : Shows b sema s)
    (hLocked : s.locked = true) :
    KSemaphore.signal b sema =
      (decide (b = .darwin → s.waiting.Nonempty),
        ⟨sema.handle.posted⟩) := by
  have hCount : sema.handle.count = 0 := by
    simpa [hLocked] using hShows.count
  cases b with
  | posix => rfl
  | darwin =>
      by_cases hWaits : s.waiting.Nonempty
      · have hCard : 0 < s.waiting.card :=
          Finset.card_pos.mpr hWaits
        simp [KSemaphore.signal,
          SemaphoreHandle.dispatchSemaphoreSignal, hCount,
          hShows.waiting, hCard, hWaits]
      · have hEmpty : s.waiting = ∅ :=
          Finset.not_nonempty_iff_eq_empty.mp hWaits
        simp [KSemaphore.signal,
          SemaphoreHandle.dispatchSemaphoreSignal, hCount,
          hShows.waiting, hEmpty]
  | windows =>
      have hSome : sema.handle.maximum = some 1 :=
        hShows.maximum
      simp [KSemaphore.signal,
        SemaphoreHandle.releaseSemaphore, hSome, hCount]

/- What an unlock of a free lock leaves. -/
omit [DecidableEq Thread] in
theorem Shows.signal_free
    {sema : KSemaphore Thread}
    {s : BinarySemaphore Thread}
    (hShows : Shows b sema s)
    (hFree : s.locked = false) :
    if b = .windows then
      KSemaphore.signal b sema = (false, sema)
    else
      (KSemaphore.signal b sema).2 = ⟨sema.handle.posted⟩ := by
  have hCount : sema.handle.count = 1 := by
    simpa [hFree] using hShows.count
  cases b with
  | posix => rfl
  | darwin => rfl
  | windows =>
      have hSome : sema.handle.maximum = some 1 :=
        hShows.maximum
      simp [KSemaphore.signal,
        SemaphoreHandle.releaseSemaphore, hSome, hCount]

/- A step of the mutex is one of its semaphore. -/
theorem step_some
    (sema : KSemaphore Thread)
    (l : MutexStep Thread) :
    step b (some ⟨some sema⟩) l =
      (sema.step b l.onSemaphore).map
        (fun r => (r.1, some ⟨some r.2⟩)) := by
  simp only [step]
  cases sema.step b l.onSemaphore with
  | none => rfl
  | some r => rfl

/- The steps of the mutex that are possible are the same. -/
theorem Shows.matches
    {sema : KSemaphore Thread}
    {s : BinarySemaphore Thread}
    {l : MutexStep Thread}
    (hShows : Shows b sema s)
    (hUnlocks :
      ∀ r, BinarySemaphore.machine.step s l = some r →
        b.Unlocks s l) :
    Machine.Matches (machine b) BinarySemaphore.machine
      (fun mutex s =>
        ∃ sema, mutex = some ⟨some sema⟩ ∧ Shows b sema s)
      (some ⟨some sema⟩) s l := by
  have hStep :
      (machine b).step (some ⟨some sema⟩) l =
        (sema.step b l.onSemaphore).map
          (fun r => (r.1, some ⟨some r.2⟩)) :=
    step_some sema l
  have hWaiting := hShows.waiting
  unfold Machine.Matches
  rw [hStep]
  cases l with
  | lock t =>
      by_cases hIn : t ∈ s.waiting
      · left
        simp [MutexStep.onSemaphore, KSemaphore.step,
          BinarySemaphore.machine, BinarySemaphore.step,
          hWaiting, hIn]
      · right
        refine
          ⟨none, some ⟨some ⟨sema.handle.enter t⟩⟩, _, ?_,
            if_neg hIn, _, rfl, hShows.maximum, hShows.count,
            ?_⟩
        · simp [MutexStep.onSemaphore, KSemaphore.step,
            hWaiting, hIn]
        · show insert t sema.handle.waiting = _
          rw [hWaiting]
  | interrupt t =>
      by_cases hIn : t ∈ s.waiting
      · right
        refine
          ⟨none, some ⟨some sema⟩, _, ?_, if_pos hIn, sema,
            rfl, hShows⟩
        simp [MutexStep.onSemaphore, KSemaphore.step,
          hWaiting, hIn]
      · left
        simp [MutexStep.onSemaphore, KSemaphore.step,
          BinarySemaphore.machine, BinarySemaphore.step,
          hWaiting, hIn]
  | pass t =>
      by_cases hPass : t ∈ s.waiting ∧ s.locked = false
      · have hCount : sema.handle.count = 1 := by
          simpa [hPass.2] using hShows.count
        have hTrue : KSemaphore.waited b 0 = true := by
          cases b <;> rfl
        right
        refine
          ⟨some true, some ⟨some ⟨sema.handle.take t⟩⟩, _, ?_,
            if_pos hPass, _, rfl, hShows.maximum, ?_, ?_⟩
        · simp [MutexStep.onSemaphore, KSemaphore.step,
            hWaiting, hPass.1, hCount, hTrue]
        · simp [SemaphoreHandle.take, hCount]
        · show sema.handle.waiting.erase t = _
          rw [hWaiting]
      · have hNot :
            ¬ (t ∈ sema.handle.waiting ∧
              0 < sema.handle.count) := by
          rintro ⟨hIn, hPos⟩
          rw [hShows.count] at hPos
          rw [hWaiting] at hIn
          cases hLocked : s.locked with
          | false => exact hPass ⟨hIn, hLocked⟩
          | true => simp [hLocked] at hPos
        left
        refine ⟨?_, if_neg hPass⟩
        simp only [MutexStep.onSemaphore, KSemaphore.step,
          if_neg hNot, Option.map_none]
  | unlock t =>
      by_cases hIn : t ∈ s.waiting
      · left
        simp [MutexStep.onSemaphore, KSemaphore.step,
          BinarySemaphore.machine, BinarySemaphore.step,
          hWaiting, hIn]
      · have hCond : b.Unlocks s (.unlock t) :=
          hUnlocks _ (if_neg hIn)
        have hSignal :
            (KSemaphore.signal b sema).1 = s.locked ∧
              Shows b (KSemaphore.signal b sema).2
                { s with locked := false } := by
          cases hLocked : s.locked with
          | true =>
              rw [hShows.signal_locked hLocked]
              refine ⟨?_, hShows.posted hLocked⟩
              apply decide_eq_true
              rintro rfl
              exact hCond.2
          | false =>
              have hFree := hShows.signal_free hLocked
              cases b with
              | posix =>
                  rw [show s.locked = true from hCond]
                    at hLocked
                  cases hLocked
              | darwin =>
                  rw [show s.locked = true from hCond.1]
                    at hLocked
                  cases hLocked
              | windows =>
                  rw [if_pos rfl] at hFree
                  rw [hFree]
                  exact
                    ⟨rfl, hShows.maximum,
                      by simpa [hLocked] using hShows.count,
                      hShows.waiting⟩
        right
        refine
          ⟨some s.locked,
            some ⟨some (KSemaphore.signal b sema).2⟩, _, ?_,
            if_neg hIn, _, rfl, hSignal.2⟩
        simp [MutexStep.onSemaphore, KSemaphore.step,
          hWaiting, hIn, hSignal.1]

/- An unlock that the machines agree on meets the condition. -/
omit [DecidableEq Thread] in
theorem Shows.unlocks
    {sema : KSemaphore Thread}
    {s : BinarySemaphore Thread}
    {t : Thread}
    (hShows : Shows b sema s)
    (hReturned :
      (KSemaphore.signal b sema).1 = s.locked)
    (hViews :
      (KSemaphore.signal b sema).2.handle.count = 1) :
    b.Unlocks s (.unlock t) := by
  cases hLocked : s.locked with
  | true =>
      rw [hShows.signal_locked hLocked, hLocked] at hReturned
      have hWaits : b = .darwin → s.waiting.Nonempty :=
        of_decide_eq_true hReturned
      cases b with
      | posix => exact hLocked
      | darwin => exact ⟨hLocked, hWaits rfl⟩
      | windows => trivial
  | false =>
      have hCount : sema.handle.count = 1 := by
        simpa [hLocked] using hShows.count
      have hFree := hShows.signal_free hLocked
      cases b with
      | posix =>
          have hTwo :
              (KSemaphore.signal .posix sema).2.handle.count =
                2 := by
            simp [KSemaphore.signal, SemaphoreHandle.semPost,
              SemaphoreHandle.posted, hCount]
          rw [hTwo] at hViews
          cases hViews
      | darwin =>
          have hTwo :
              (KSemaphore.signal .darwin sema).2.handle.count =
                2 := by
            simp [KSemaphore.signal,
              SemaphoreHandle.dispatchSemaphoreSignal,
              SemaphoreHandle.posted, hCount]
          rw [hTwo] at hViews
          cases hViews
      | windows => trivial

end KMutex

end KDoth

------------------------------------------------------------
-- One Binary Semaphore
------------------------------------------------------------

namespace KDoth

namespace KMutex

variable {Thread : Type} [DecidableEq Thread]

/-
  A mutex is the binary semaphore exactly when each unlock is
  one that its back end treats so: any on Windows, one of a
  lock that is taken on POSIX, and on Darwin one of a lock
  that some thread waits for.
-/
theorem binary_iff
    (b : BackEnd)
    (steps : List (MutexStep Thread)) :
    Conforms b steps ↔
      BinarySemaphore.machine.Meets b.Unlocks
        BinarySemaphore.new steps := by
  refine
    Machine.alike_iff_meets_of_view
      (R := fun mutex s =>
        ∃ sema, mutex = some ⟨some sema⟩ ∧ Shows b sema s)
      ?_ ?_ ?_ ?_ steps
  · rintro mutex s ⟨sema, hMutex, hShows⟩
    exact ⟨sema, hMutex, hShows.count, hShows.waiting⟩
  · rintro mutex s l ⟨sema, rfl, hShows⟩ hUnlocks
    exact hShows.matches hUnlocks
  · rintro mutex s l v mutex' s' ⟨sema, rfl, hShows⟩ hBinary
      hMutex ⟨sema', rfl, hCount, _⟩
    cases l with
    | unlock t =>
        by_cases hIn : t ∈ s.waiting
        · simp [BinarySemaphore.machine,
            BinarySemaphore.step, hIn] at hBinary
        · have hIn' : t ∉ sema.handle.waiting := by
            rw [hShows.waiting]
            exact hIn
          simp only [BinarySemaphore.machine,
            BinarySemaphore.step, if_neg hIn,
            Option.some.injEq, Prod.mk.injEq] at hBinary
          rcases hBinary with ⟨rfl, rfl⟩
          simp only [machine, step_some,
            MutexStep.onSemaphore, KSemaphore.step,
            if_neg hIn', Option.map_some, Option.some.injEq,
            Prod.mk.injEq, KMutex.mk.injEq] at hMutex
          rcases hMutex with ⟨hValue, hSema⟩
          apply hShows.unlocks hValue
          rw [hSema]
          exact hCount
    | _ => trivial
  · exact ⟨fresh b, new_eq true true, Shows.fresh⟩

end KMutex

end KDoth

------------------------------------------------------------
-- Clients
------------------------------------------------------------

namespace KDoth

/- A mutex and the threads whose lock has returned true. -/
structure MutexClients (Thread : Type) where
  mutex : Option (KMutex Thread)
  holders : Finset Thread
deriving DecidableEq

namespace KMutex

variable {Thread : Type} [DecidableEq Thread]

/- Who holds the mutex after a step that returns a value. -/
def holdersAfter
    (holders : Finset Thread) :
    MutexStep Thread → Option Bool → Finset Thread
| .pass t, some true => insert t holders
| .unlock t, _ => holders.erase t
| _, _ => holders

/- Threads that share a mutex, or the NULL they were given. -/
def clients (b : BackEnd) :
    TransitionSystem (MutexClients Thread)
      (MutexStep Thread) where
  Init s :=
    ∃ granted semaGranted,
      s = ⟨new granted semaGranted b, ∅⟩
  step s l :=
    match step b s.mutex l with
    | none => none
    | some (v, mutex) =>
        some ⟨mutex, holdersAfter s.holders l v⟩

/- A thread unlocks the mutex only while it holds it. -/
def UnlocksOwn
    (s : MutexClients Thread) :
    MutexStep Thread → Prop
| .unlock t => t ∈ s.holders
| _ => True

instance
    (s : MutexClients Thread)
    (l : MutexStep Thread) :
    Decidable (UnlocksOwn s l) := by
  cases l <;> unfold UnlocksOwn <;> infer_instance

/- The threads inside a lock of the mutex. -/
def waitingFor :
    Option (KMutex Thread) → Finset Thread
| some ⟨some sema⟩ => sema.handle.waiting
| _ => ∅

/- The holder a lock that is taken has. -/
def Holds
    (s : BinarySemaphore Thread)
    (holders : Finset Thread) : Prop :=
  if s.locked then ∃ h, holders = {h} else holders = ∅

/-
  The mutex is a binary semaphore whose lock is taken while
  one thread holds it. Nobody holds a mutex that is NULL.
-/
def Guarded
    (b : BackEnd)
    (c : MutexClients Thread) : Prop :=
  match c.mutex with
  | some ⟨some sema⟩ =>
      ∃ s, Shows b sema s ∧ Holds s c.holders
  | some ⟨none⟩ => False
  | none => c.holders = ∅

end KMutex

end KDoth

------------------------------------------------------------
-- Mutual Exclusion
------------------------------------------------------------

namespace KDoth

namespace KMutex

variable {Thread : Type} [DecidableEq Thread]
variable {b : BackEnd}

theorem Guarded.init
    (c : MutexClients Thread)
    (hInit : (clients b).Init c) :
    Guarded b c := by
  rcases hInit with ⟨granted, semaGranted, rfl⟩
  simp only [Guarded, new_eq]
  cases granted <;> cases semaGranted
  · trivial
  · trivial
  · trivial
  · exact ⟨BinarySemaphore.new, Shows.fresh, rfl⟩

/- A step of threads that share a mutex that was made. -/
theorem clients_step
    {sema : KSemaphore Thread}
    {holders : Finset Thread}
    {c : MutexClients Thread}
    {l : MutexStep Thread}
    (hStep :
      (clients b).step ⟨some ⟨some sema⟩, holders⟩ l =
        some c) :
    ∃ v sema',
      sema.step b l.onSemaphore = some (v, sema') ∧
        c = ⟨some ⟨some sema'⟩, holdersAfter holders l v⟩ := by
  simp only [clients, step_some] at hStep
  cases hSema : sema.step b l.onSemaphore with
  | none =>
      rw [hSema] at hStep
      cases hStep
  | some r =>
      rw [hSema] at hStep
      cases hStep
      exact ⟨r.1, r.2, rfl, rfl⟩

/- A step both agree on is the binary semaphore's. -/
theorem Shows.step_of_unlocks
    {sema sema' : KSemaphore Thread}
    {s : BinarySemaphore Thread}
    {l : MutexStep Thread}
    {v : Option Bool}
    (hShows : Shows b sema s)
    (hUnlocks : b.Unlocks s l)
    (hSema :
      sema.step b l.onSemaphore = some (v, sema')) :
    ∃ s', s.step l = some (v, s') ∧ Shows b sema' s' := by
  have hMutex :
      (machine b).step (some ⟨some sema⟩) l =
        some (v, some ⟨some sema'⟩) := by
    show step b (some ⟨some sema⟩) l = _
    rw [step_some, hSema]
    rfl
  rcases hShows.matches (fun _ _ => hUnlocks) with
    ⟨hNone, _⟩ | ⟨w, m, s', hM, hS, sema₁, rfl, hNext⟩
  · rw [hNone] at hMutex
    cases hMutex
  · rw [hM] at hMutex
    cases hMutex
    exact ⟨s', hS, hNext⟩

/-
  A step that unlocks no free lock is the binary semaphore's.
  Only an unlock may return something else.
-/
theorem Shows.step
    {sema sema' : KSemaphore Thread}
    {s : BinarySemaphore Thread}
    {l : MutexStep Thread}
    {v : Option Bool}
    (hShows : Shows b sema s)
    (hLocked : ∀ t, l = .unlock t → s.locked = true)
    (hSema :
      sema.step b l.onSemaphore = some (v, sema')) :
    ∃ w s',
      s.step l = some (w, s') ∧ Shows b sema' s' ∧
        (w = v ∨ ∃ t, l = .unlock t) := by
  have hAgreed (hUnlocks : b.Unlocks s l) :
      ∃ w s',
        s.step l = some (w, s') ∧ Shows b sema' s' ∧
          (w = v ∨ ∃ t, l = .unlock t) := by
    rcases hShows.step_of_unlocks hUnlocks hSema with
      ⟨s', hBinary, hNext⟩
    exact ⟨v, s', hBinary, hNext, .inl rfl⟩
  cases l with
  | unlock t =>
      by_cases hIn : t ∈ sema.handle.waiting
      · simp [MutexStep.onSemaphore, KSemaphore.step, hIn]
          at hSema
      · have hLocked := hLocked t rfl
        simp only [MutexStep.onSemaphore, KSemaphore.step,
          if_neg hIn, hShows.signal_locked hLocked,
          Option.some.injEq, Prod.mk.injEq] at hSema
        rcases hSema with ⟨rfl, rfl⟩
        rw [hShows.waiting] at hIn
        exact
          ⟨_, _, if_neg hIn, hShows.posted hLocked,
            .inr ⟨t, rfl⟩⟩
  | lock t => exact hAgreed trivial
  | interrupt t => exact hAgreed trivial
  | pass t => exact hAgreed trivial

/- Who holds a binary semaphore after a step. -/
theorem Holds.step
    {s s' : BinarySemaphore Thread}
    {mutex : Option (KMutex Thread)}
    {holders : Finset Thread}
    {l : MutexStep Thread}
    {w : Option Bool}
    (hHolds : Holds s holders)
    (hOwn : UnlocksOwn ⟨mutex, holders⟩ l)
    (hStep : s.step l = some (w, s')) :
    Holds s' (holdersAfter holders l w) := by
  cases l with
  | lock t =>
      by_cases hIn : t ∈ s.waiting
      · simp [BinarySemaphore.step, hIn] at hStep
      · simp only [BinarySemaphore.step, if_neg hIn,
          Option.some.injEq, Prod.mk.injEq] at hStep
        rcases hStep with ⟨rfl, rfl⟩
        exact hHolds
  | interrupt t =>
      by_cases hIn : t ∈ s.waiting
      · simp only [BinarySemaphore.step, if_pos hIn,
          Option.some.injEq, Prod.mk.injEq] at hStep
        rcases hStep with ⟨rfl, rfl⟩
        exact hHolds
      · simp [BinarySemaphore.step, hIn] at hStep
  | pass t =>
      by_cases hPass : t ∈ s.waiting ∧ s.locked = false
      · simp only [BinarySemaphore.step, if_pos hPass,
          Option.some.injEq, Prod.mk.injEq] at hStep
        rcases hStep with ⟨rfl, rfl⟩
        have hNone : holders = ∅ := by
          simpa [Holds, hPass.2] using hHolds
        exact ⟨t, by simp [holdersAfter, hNone]⟩
      · simp [BinarySemaphore.step, hPass] at hStep
  | unlock t =>
      by_cases hIn : t ∈ s.waiting
      · simp [BinarySemaphore.step, hIn] at hStep
      · simp only [BinarySemaphore.step, if_neg hIn,
          Option.some.injEq, Prod.mk.injEq] at hStep
        rcases hStep with ⟨rfl, rfl⟩
        have hHolder : t ∈ holders := hOwn
        have hErased : holders.erase t = ∅ := by
          by_cases hLocked : s.locked
          · simp only [Holds, if_pos hLocked] at hHolds
            rcases hHolds with ⟨h, rfl⟩
            rw [Finset.mem_singleton.mp hHolder]
            simp
          · simp only [Holds, if_neg hLocked] at hHolds
            rw [hHolds]
            rfl
        exact hErased

/- A lock somebody holds is taken. -/
omit [DecidableEq Thread] in
theorem Holds.locked
    {s : BinarySemaphore Thread}
    {holders : Finset Thread}
    {t : Thread}
    (hHolds : Holds s holders)
    (hHolder : t ∈ holders) :
    s.locked = true := by
  by_contra hFree
  simp only [Holds, if_neg hFree] at hHolds
  simp [hHolds] at hHolder

/- What the discipline keeps. -/
theorem Guarded.step
    (c : MutexClients Thread)
    (l : MutexStep Thread)
    (c' : MutexClients Thread)
    (hGuarded : Guarded b c)
    (hOwn : UnlocksOwn c l)
    (hStep : (clients b).step c l = some c') :
    Guarded b c' := by
  rcases c with ⟨mutex, holders⟩
  match mutex with
  | none =>
      have hNone : holders = ∅ := hGuarded
      cases l with
      | lock t =>
          cases hStep
          exact hNone
      | unlock t => simp [UnlocksOwn, hNone] at hOwn
      | interrupt t => cases hStep
      | pass t => cases hStep
  | some ⟨none⟩ => exact hGuarded.elim
  | some ⟨some sema⟩ =>
      rcases hGuarded with ⟨s, hShows, hHolds⟩
      rcases clients_step hStep with ⟨v, sema', hSema, rfl⟩
      have hLocked :
          ∀ t, l = .unlock t → s.locked = true := by
        rintro t rfl
        exact Holds.locked hHolds hOwn
      rcases hShows.step hLocked hSema with
        ⟨w, s', hBinary, hNext, hValue⟩
      have hAfter := Holds.step hHolds hOwn hBinary
      refine ⟨s', hNext, ?_⟩
      rcases hValue with rfl | ⟨t, rfl⟩
      · exact hAfter
      · exact hAfter

/- The mutex of clients that keep to it is guarded. -/
theorem guarded_of_reachable
    {c : MutexClients Thread}
    (hReach : (clients b).ReachableWhere UnlocksOwn c) :
    Guarded b c :=
  hReach.invariant Guarded.init Guarded.step

/- A lock passes when nobody holds the mutex. -/
theorem Guarded.pass
    {c : MutexClients Thread}
    {t : Thread}
    (hGuarded : Guarded b c)
    (hWaits : t ∈ waitingFor c.mutex)
    (hFree : c.holders = ∅) :
    ∃ c',
      (clients b).step c (.pass t) = some c' ∧
        c'.holders = {t} := by
  rcases c with ⟨_ | ⟨_ | sema⟩, holders⟩
  · simp [waitingFor] at hWaits
  · exact hGuarded.elim
  · rcases hGuarded with ⟨s, hShows, hHolds⟩
    have hNone : holders = ∅ := hFree
    have hIn : t ∈ sema.handle.waiting := hWaits
    have hUnlocked : s.locked = false := by
      by_contra hLocked
      simp [Holds, hLocked, hNone] at hHolds
    have hCount : sema.handle.count = 1 := by
      simpa [hUnlocked] using hShows.count
    have hTrue : KSemaphore.waited b 0 = true := by
      cases b <;> rfl
    refine
      ⟨⟨some ⟨some ⟨sema.handle.take t⟩⟩, {t}⟩, ?_, rfl⟩
    simp [clients, step_some, MutexStep.onSemaphore,
      KSemaphore.step, hIn, hCount, hTrue, holdersAfter,
      hNone]

/- The holder frees the mutex by an unlock. -/
theorem Guarded.unlock
    {c : MutexClients Thread}
    {h : Thread}
    (hGuarded : Guarded b c)
    (hHolder : c.holders = {h})
    (hOutside : h ∉ waitingFor c.mutex) :
    ∃ c',
      (clients b).step c (.unlock h) = some c' ∧
        c'.holders = ∅ ∧
          waitingFor c'.mutex = waitingFor c.mutex := by
  rcases c with ⟨_ | ⟨_ | sema⟩, holders⟩
  · rw [show holders = {h} from hHolder] at hGuarded
    exact absurd hGuarded (Finset.singleton_ne_empty h)
  · exact hGuarded.elim
  · rcases hGuarded with ⟨s, hShows, hHolds⟩
    have hOne : holders = {h} := hHolder
    have hLocked : s.locked = true :=
      Holds.locked hHolds (t := h) (by simp [hOne])
    have hOut : h ∉ sema.handle.waiting := hOutside
    refine
      ⟨⟨some ⟨some ⟨sema.handle.posted⟩⟩, ∅⟩, ?_, rfl, rfl⟩
    simp [clients, step_some, MutexStep.onSemaphore,
      KSemaphore.step, hOut, hShows.signal_locked hLocked,
      holdersAfter, hOne]

/- No lock passes while somebody holds the mutex. -/
theorem Guarded.free_of_pass
    {c c' : MutexClients Thread}
    {t : Thread}
    (hGuarded : Guarded b c)
    (hStep : (clients b).step c (.pass t) = some c') :
    c.holders = ∅ := by
  rcases c with ⟨_ | ⟨_ | sema⟩, holders⟩
  · cases hStep
  · exact hGuarded.elim
  · rcases hGuarded with ⟨s, hShows, hHolds⟩
    rcases clients_step hStep with ⟨v, sema', hSema, rfl⟩
    rcases
        hShows.step_of_unlocks (l := .pass t) trivial hSema
      with ⟨s', hBinary, _⟩
    by_cases hPass : t ∈ s.waiting ∧ s.locked = false
    · simpa [Holds, hPass.2] using hHolds
    · simp [BinarySemaphore.step, hPass] at hBinary

/-
  Threads that unlock only what they hold never hold a mutex
  together, on any back end. A thread that waits passes when
  nobody holds it, and never before, and until then it is one
  unlock of the holder away from it.
-/
theorem mutual_exclusion
    {c : MutexClients Thread}
    (hReach : (clients b).ReachableWhere UnlocksOwn c) :
    (∀ t ∈ c.holders, ∀ u ∈ c.holders, t = u) ∧
      (∀ t ∈ waitingFor c.mutex,
        (∃ c', (clients b).step c (.pass t) = some c') ↔
          c.holders = ∅) ∧
      ∀ t ∈ waitingFor c.mutex,
        (∀ h ∈ c.holders, h ∉ waitingFor c.mutex) →
          ∃ ls c',
            ls.length ≤ 2 ∧
              (clients b).exec c ls = some c' ∧
                c'.holders = {t} := by
  have hGuarded := guarded_of_reachable hReach
  have hOne :
      c.holders = ∅ ∨ ∃ h, c.holders = {h} := by
    rcases c with ⟨_ | ⟨_ | sema⟩, holders⟩
    · exact .inl hGuarded
    · exact hGuarded.elim
    · rcases hGuarded with ⟨s, _, hHolds⟩
      by_cases hLocked : s.locked
      · exact .inr (by simpa [Holds, hLocked] using hHolds)
      · exact .inl (by simpa [Holds, hLocked] using hHolds)
  refine ⟨?_, ?_, ?_⟩
  · intro t hT u hU
    rcases hOne with hNone | ⟨h, hSingle⟩
    · simp [hNone] at hT
    · rw [hSingle, Finset.mem_singleton] at hT hU
      rw [hT, hU]
  · intro t hWaits
    constructor
    · rintro ⟨c', hStep⟩
      exact hGuarded.free_of_pass hStep
    · intro hFree
      rcases hGuarded.pass hWaits hFree with ⟨c', hStep, _⟩
      exact ⟨c', hStep⟩
  · intro t hWaits hOutside
    rcases hOne with hNone | ⟨h, hSingle⟩
    · rcases hGuarded.pass hWaits hNone with
        ⟨c', hStep, hHolder⟩
      exact
        ⟨[.pass t], c', by simp,
          by simp [TransitionSystem.exec, hStep], hHolder⟩
    · have hOut := hOutside h (by simp [hSingle])
      rcases hGuarded.unlock hSingle hOut with
        ⟨c₁, hFirst, hFree, hSame⟩
      have hNext : Guarded b c₁ :=
        Guarded.step c (.unlock h) c₁ hGuarded
          (show h ∈ c.holders by simp [hSingle]) hFirst
      rw [← hSame] at hWaits
      rcases hNext.pass hWaits hFree with
        ⟨c', hSecond, hHolder⟩
      exact
        ⟨[.unlock h, .pass t], c', by simp,
          by simp [TransitionSystem.exec, hFirst, hSecond],
          hHolder⟩

/-
  On Darwin one thread has a mutex and another waits for it:
  the unlock of the first lets the second pass.
-/
theorem mutual_exclusion_of_two :
    ∃ c : MutexClients (Fin 2),
      waitingFor c.mutex = {1} ∧ c.holders = {0} ∧
        ∃ ls c',
          ls.length ≤ 2 ∧
            (clients .darwin).exec c ls = some c' ∧
              c'.holders = {1} := by
  have hExec :
      (clients .darwin).exec
          ⟨new true true .darwin, (∅ : Finset (Fin 2))⟩
          [.lock 0, .pass 0, .lock 1] =
        some ⟨some ⟨some ⟨⟨0, none, {1}⟩⟩⟩, {0}⟩ := by
    decide
  have hReach :
      (clients .darwin).ReachableWhere UnlocksOwn
        ⟨some ⟨some ⟨⟨0, none, {1}⟩⟩⟩,
          ({0} : Finset (Fin 2))⟩ :=
    TransitionSystem.reachableWhere_of_exec
      (.init ⟨true, true, rfl⟩) (by decide) hExec
  have hBoth := mutual_exclusion hReach
  exact
    ⟨_, rfl, rfl, hBoth.2.2 1 (by decide) (by decide)⟩

end KMutex

end KDoth
