import KDoth.Foundations.Lockstep
import Mathlib.Algebra.Group.Nat.Defs
import Mathlib.Data.Finset.Card

/-
  The counting semaphore of `ksemaphore.c` over the three
  operating systems it is built for, and the counter that a
  caller expects.

  The semaphore of the system keeps a count and the threads
  inside a wait. A wait takes two steps, to enter and to
  pass, so any number of threads can be between them.

  Key definitions include:
    * `BackEnd`
    * `SemaphoreHandle`
    * `KSemaphore.new`
    * `KSemaphore.signal`
    * `KSemaphore.machine`
    * `Counter.machine`
    * `KSemaphore.Conforms`

  Key theorems include:
    * `KSemaphore.newHandle_of_represents`
    * `KSemaphore.signal_of_honours`
    * `KSemaphore.Shows.matches`
    * `KSemaphore.conforms_iff`
    * `KSemaphore.signals_lost`
-/

------------------------------------------------------------
-- Semaphores Of The Operating System
------------------------------------------------------------

namespace KDoth

/- The branches of `K_OS_WIN`, `K_OS_DARWIN` and the rest. -/
inductive BackEnd where
  | posix
  | darwin
  | windows
deriving DecidableEq, Repr

/-
  A semaphore of the system. `maximum` is the bound given at
  creation, where the system takes one, and `waiting` are
  the threads inside a wait.
-/
structure SemaphoreHandle (Thread : Type) where
  count : Nat
  maximum : Option Nat
  waiting : Finset Thread
deriving DecidableEq

namespace SemaphoreHandle

variable {Thread : Type} [DecidableEq Thread]

/- A semaphore with no thread waiting. -/
def created
    (count : Nat)
    (maximum : Option Nat) :
    SemaphoreHandle Thread where
  count := count
  maximum := maximum
  waiting := ∅

/- One more unit. -/
def posted
    (h : SemaphoreHandle Thread) :
    SemaphoreHandle Thread :=
  { h with count := h.count + 1 }

/- `sem_init` takes its value as an `unsigned int`. -/
def semInit (value : UInt32) : SemaphoreHandle Thread :=
  created value.toNat none

/- `sem_post` returns zero. -/
def semPost
    (h : SemaphoreHandle Thread) :
    Int × SemaphoreHandle Thread :=
  (0, h.posted)

/- `dispatch_semaphore_create` takes its value signed. -/
def dispatchSemaphoreCreate
    (value : Int64) :
    Option (SemaphoreHandle Thread) :=
  if value.toInt < 0 then none
  else some (created value.toInt.toNat none)

/-
  `dispatch_semaphore_signal` returns non-zero if a thread is
  woken: one that waits and that no earlier unit is for.
-/
def dispatchSemaphoreSignal
    (h : SemaphoreHandle Thread) :
    Int × SemaphoreHandle Thread :=
  (if h.count < h.waiting.card then 1 else 0, h.posted)

/-
  `CreateSemaphore` takes both counts as a `LONG`. The
  maximum must be positive and bounds the initial count.
-/
def createSemaphore
    (initialCount maximumCount : Int32) :
    Option (SemaphoreHandle Thread) :=
  if maximumCount.toInt ≤ 0 then none
  else if initialCount.toInt < 0 then none
  else if maximumCount.toInt < initialCount.toInt then none
  else
    some
      (created initialCount.toInt.toNat
        (some maximumCount.toInt.toNat))

/-
  `ReleaseSemaphore` changes nothing and returns `FALSE` when
  the count would exceed the maximum.
-/
def releaseSemaphore
    (h : SemaphoreHandle Thread) :
    Bool × SemaphoreHandle Thread :=
  match h.maximum with
  | none => (true, h.posted)
  | some maximum =>
      if h.count + 1 ≤ maximum then (true, h.posted)
      else (false, h)

/- A thread enters a wait. -/
def enter
    (h : SemaphoreHandle Thread)
    (t : Thread) :
    SemaphoreHandle Thread :=
  { h with waiting := insert t h.waiting }

/- A thread inside a wait takes one unit. -/
def take
    (h : SemaphoreHandle Thread)
    (t : Thread) :
    SemaphoreHandle Thread :=
  { h with
    count := h.count - 1
    waiting := h.waiting.erase t }

end SemaphoreHandle

end KDoth

------------------------------------------------------------
-- The Semaphore Of The Library
------------------------------------------------------------

namespace KDoth

/-
  What threads do with a semaphore. On POSIX `interrupt` is a
  `sem_wait` that ends with `EINTR` and is called again.
-/
inductive SemaphoreStep (Thread : Type) where
  | wait (t : Thread)
  | interrupt (t : Thread)
  | pass (t : Thread)
  | signal (t : Thread)
deriving DecidableEq, Repr

/- A semaphore whose handle was created. -/
structure KSemaphore (Thread : Type) where
  handle : SemaphoreHandle Thread
deriving DecidableEq

namespace KSemaphore

variable {Thread : Type} [DecidableEq Thread]

/- The handle of a semaphore that starts at a `size_t`. -/
def newHandle (count : UInt64) :
    BackEnd → Option (SemaphoreHandle Thread)
| .windows =>
    SemaphoreHandle.createSemaphore
      count.toUInt32.toInt32 count.toUInt32.toInt32
| .darwin =>
    SemaphoreHandle.dispatchSemaphoreCreate count.toInt64
| .posix => some (SemaphoreHandle.semInit count.toUInt32)

/-
  `KSemaphoreNew`, whose object is granted or not. NULL is
  `none`.
-/
def new
    (granted : Bool)
    (b : BackEnd)
    (count : UInt64) :
    Option (KSemaphore Thread) :=
  if granted then
    match newHandle count b with
    | none => none
    | some handle => some ⟨handle⟩
  else none

/- `KSemaphoreSignal` -/
def signal
    (b : BackEnd)
    (sema : KSemaphore Thread) :
    Bool × KSemaphore Thread :=
  match b with
  | .windows =>
      let r := sema.handle.releaseSemaphore
      (r.1 == true, ⟨r.2⟩)
  | .darwin =>
      let r := sema.handle.dispatchSemaphoreSignal
      (r.1 != 0, ⟨r.2⟩)
  | .posix =>
      let r := sema.handle.semPost
      (r.1 == 0, ⟨r.2⟩)

/-
  `KSemaphoreWait`, when the wait of the system returns a
  code. `WAIT_OBJECT_0` is zero.
-/
def waited (b : BackEnd) (code : Int) : Bool :=
  match b with
  | .windows => code == 0
  | .darwin => code == 0
  | .posix => code == 0

/-
  The steps of threads that hold a reference to a semaphore.
  A step returns what the call returns, and nothing where no
  call ends. The wait of the system returns zero once it has
  taken its unit. A thread that waits makes no other call.
-/
def step
    (b : BackEnd)
    (sema : KSemaphore Thread) :
    SemaphoreStep Thread →
      Option (Option Bool × KSemaphore Thread)
| .wait t =>
    if t ∈ sema.handle.waiting then none
    else some (none, ⟨sema.handle.enter t⟩)
| .interrupt t =>
    if t ∈ sema.handle.waiting then some (none, sema)
    else none
| .pass t =>
    if t ∈ sema.handle.waiting ∧ 0 < sema.handle.count then
      some (some (waited b 0), ⟨sema.handle.take t⟩)
    else none
| .signal t =>
    if t ∈ sema.handle.waiting then none
    else
      let r := signal b sema
      some (some r.1, r.2)

/- The semaphore of a back end as a machine. -/
def machine (b : BackEnd) :
    Machine (KSemaphore Thread) (SemaphoreStep Thread)
      (Option Bool) where
  step := step b

end KSemaphore

end KDoth

------------------------------------------------------------
-- The Counter
------------------------------------------------------------

namespace KDoth

/-
  What a caller expects: a counter and the threads that wait
  for it to be positive.
-/
structure Counter (Thread : Type) where
  count : Nat
  waiting : Finset Thread
deriving DecidableEq

namespace Counter

variable {Thread : Type} [DecidableEq Thread]

def new (n : Nat) : Counter Thread where
  count := n
  waiting := ∅

/-
  A wait passes when the count is positive, and takes one. A
  signal adds one and returns true.
-/
def step
    (c : Counter Thread) :
    SemaphoreStep Thread →
      Option (Option Bool × Counter Thread)
| .wait t =>
    if t ∈ c.waiting then none
    else some (none, { c with waiting := insert t c.waiting })
| .interrupt t =>
    if t ∈ c.waiting then some (none, c) else none
| .pass t =>
    if t ∈ c.waiting ∧ 0 < c.count then
      some
        (some true,
          { count := c.count - 1
            waiting := c.waiting.erase t })
    else none
| .signal t =>
    if t ∈ c.waiting then none
    else some (some true, { c with count := c.count + 1 })

/- The counter as a machine. -/
def machine :
    Machine (Counter Thread) (SemaphoreStep Thread)
      (Option Bool) where
  step := step

end Counter

namespace KSemaphore

variable {Thread : Type} [DecidableEq Thread]

/- The counter that a semaphore shows. -/
def counter (sema : KSemaphore Thread) : Counter Thread where
  count := sema.handle.count
  waiting := sema.handle.waiting

/-
  A new semaphore that starts at `n` and the counter that
  starts at `n` cannot be told apart by the steps: their
  counts, the threads that wait and what the calls return
  are the same all the way.
-/
def Conforms
    (b : BackEnd)
    (n : UInt64)
    (steps : List (SemaphoreStep Thread)) : Prop :=
  match new true b n with
  | none => False
  | some sema =>
      (machine b).Alike Counter.machine
        (fun s c => s.counter = c)
        sema (Counter.new n.toNat) steps

end KSemaphore

/- The counts that a back end can start at. -/
def BackEnd.Represents :
    BackEnd → UInt64 → Prop
| .posix, n => n.toNat < 2 ^ 32
| .darwin, n => n.toNat < 2 ^ 63
| .windows, n => 0 < n.toNat ∧ n.toNat < 2 ^ 31

/-
  The signals that a back end treats as the counter does: on
  Darwin there is a waiting thread no earlier signal was for,
  on Windows the count is below the initial one.
-/
def BackEnd.Honours
    {Thread : Type}
    (b : BackEnd)
    (n : UInt64)
    (c : Counter Thread) :
    SemaphoreStep Thread → Prop
| .signal _ =>
    match b with
    | .posix => True
    | .darwin => c.count < c.waiting.card
    | .windows => c.count < n.toNat
| _ => True

end KDoth

------------------------------------------------------------
-- Creation
------------------------------------------------------------

namespace KDoth

variable {Thread : Type}

/- What `CreateSemaphore` asks of its counts. -/
theorem SemaphoreHandle.createSemaphore_some
    {initialCount maximumCount : Int32}
    {h : SemaphoreHandle Thread}
    (hCreated :
      createSemaphore initialCount maximumCount = some h) :
    0 < maximumCount.toInt ∧
      h =
        created initialCount.toInt.toNat
          (some maximumCount.toInt.toNat) := by
  unfold createSemaphore at hCreated
  by_cases hMaximum : maximumCount.toInt ≤ 0
  · rw [if_pos hMaximum] at hCreated
    cases hCreated
  · rw [if_neg hMaximum] at hCreated
    split at hCreated
    · cases hCreated
    · split at hCreated
      · cases hCreated
      · cases hCreated
        exact ⟨by omega, rfl⟩

namespace KSemaphore

variable {b : BackEnd} {n : UInt64}

/- A `LONG` made from a `size_t`. -/
theorem toInt_long :
    n.toUInt32.toInt32.toInt =
      Int.bmod n.toNat (2 ^ 32) := by
  rw [← Int32.toInt_toBitVec, UInt32.toBitVec_toInt32,
    BitVec.toInt_eq_toNat_bmod, UInt32.toNat_toBitVec,
    UInt64.toNat_toUInt32, Int.natCast_emod]
  exact Int.emod_bmod (n.toNat : Int) (2 ^ 32)

/- An `intptr_t` made from a `size_t`. -/
theorem toInt_intptr :
    n.toInt64.toInt = Int.bmod n.toNat (2 ^ 64) := by
  rw [← Int64.toInt_toBitVec, UInt64.toBitVec_toInt64,
    BitVec.toInt_eq_toNat_bmod, UInt64.toNat_toBitVec]

/- The maximum that a back end keeps. -/
def maximumOf : BackEnd → UInt64 → Option Nat
| .windows, n => some n.toNat
| _, _ => none

/- A count that is represented is the count started at. -/
theorem newHandle_of_represents
    (hFits : b.Represents n) :
    newHandle n b =
      some
        (SemaphoreHandle.created n.toNat (maximumOf b n) :
          SemaphoreHandle Thread) := by
  cases b with
  | posix =>
      have hNat : n.toUInt32.toNat = n.toNat := by
        rw [UInt64.toNat_toUInt32]
        exact Nat.mod_eq_of_lt hFits
      simp only [newHandle, SemaphoreHandle.semInit, hNat,
        maximumOf]
  | darwin =>
      have hInt : n.toInt64.toInt = n.toNat := by
        rw [toInt_intptr]
        have hFits' : n.toNat < 2 ^ 63 := hFits
        apply Int.bmod_eq_of_le <;> omega
      have hNot : ¬ (n.toNat : Int) < 0 := by omega
      simp only [newHandle,
        SemaphoreHandle.dispatchSemaphoreCreate, hInt,
        if_neg hNot, maximumOf, Int.toNat_natCast]
  | windows =>
      rcases hFits with ⟨hPos, hLt⟩
      have hInt : n.toUInt32.toInt32.toInt = n.toNat := by
        rw [toInt_long]
        apply Int.bmod_eq_of_le <;> omega
      have hMaximum : ¬ (n.toNat : Int) ≤ 0 := by omega
      have hInitial : ¬ (n.toNat : Int) < 0 := by omega
      have hSelf : ¬ (n.toNat : Int) < n.toNat := by omega
      simp only [newHandle, SemaphoreHandle.createSemaphore,
        hInt, if_neg hMaximum, if_neg hInitial, if_neg hSelf,
        maximumOf, Int.toNat_natCast]

/- A back end that starts at the count represents it. -/
theorem represents_of_newHandle
    {handle : SemaphoreHandle Thread}
    (hNew : newHandle n b = some handle)
    (hCount : handle.count = n.toNat) :
    b.Represents n := by
  have hBound : n.toNat < 2 ^ 64 := n.toNat_lt
  cases b with
  | posix =>
      cases hNew
      have hMod : n.toNat % 2 ^ 32 = n.toNat := by
        rw [← UInt64.toNat_toUInt32]
        exact hCount
      show n.toNat < 2 ^ 32
      omega
  | darwin =>
      show n.toNat < 2 ^ 63
      by_contra hLarge
      have hInt : n.toInt64.toInt < 0 := by
        rw [toInt_intptr, Int.bmod]
        omega
      simp only [newHandle,
        SemaphoreHandle.dispatchSemaphoreCreate,
        if_pos hInt] at hNew
      cases hNew
  | windows =>
      rcases SemaphoreHandle.createSemaphore_some hNew with
        ⟨hPos, hHandle⟩
      rw [hHandle] at hCount
      have hEq :
          n.toUInt32.toInt32.toInt.toNat = n.toNat := hCount
      rw [toInt_long] at hPos hEq
      have hHalf :=
        Int.bmod_lt (x := n.toNat) (m := 2 ^ 32) (by decide)
      show 0 < n.toNat ∧ n.toNat < 2 ^ 31
      omega

end KSemaphore

end KDoth

------------------------------------------------------------
-- Signals And Waits
------------------------------------------------------------

namespace KDoth

namespace KSemaphore

variable {Thread : Type} [DecidableEq Thread]
variable {b : BackEnd} {n : UInt64}

/- A semaphore in use, and the counter it shows. -/
structure Shows
    (b : BackEnd)
    (n : UInt64)
    (sema : KSemaphore Thread)
    (c : Counter Thread) : Prop where
  maximum : sema.handle.maximum = maximumOf b n
  counter : sema.counter = c

/- An honoured signal adds one and returns true. -/
omit [DecidableEq Thread] in
theorem signal_of_honours
    {sema : KSemaphore Thread}
    {t : Thread}
    (hMaximum : sema.handle.maximum = maximumOf b n)
    (hHonours : b.Honours n sema.counter (.signal t)) :
    signal b sema = (true, ⟨sema.handle.posted⟩) := by
  cases b with
  | posix => rfl
  | darwin =>
      have hWoken :
          sema.handle.count < sema.handle.waiting.card :=
        hHonours
      simp [signal, SemaphoreHandle.dispatchSemaphoreSignal,
        hWoken]
  | windows =>
      have hRoom : sema.handle.count + 1 ≤ n.toNat :=
        hHonours
      have hSome : sema.handle.maximum = some n.toNat :=
        hMaximum
      simp [signal, SemaphoreHandle.releaseSemaphore, hSome,
        hRoom]

/- A signal that returns true was honoured. -/
omit [DecidableEq Thread] in
theorem honours_of_signal
    {sema : KSemaphore Thread}
    {t : Thread}
    (hMaximum : sema.handle.maximum = maximumOf b n)
    (hSignal : (signal b sema).1 = true) :
    b.Honours n sema.counter (.signal t) := by
  cases b with
  | posix => trivial
  | darwin =>
      show sema.handle.count < sema.handle.waiting.card
      by_contra hNone
      simp [signal, SemaphoreHandle.dispatchSemaphoreSignal,
        hNone] at hSignal
  | windows =>
      have hSome : sema.handle.maximum = some n.toNat :=
        hMaximum
      show sema.handle.count + 1 ≤ n.toNat
      by_contra hFull
      simp [signal, SemaphoreHandle.releaseSemaphore, hSome,
        hFull] at hSignal

/-
  A step that the back end honours is the counter's: the
  threads that wait are the same, so the same steps are
  possible.
-/
theorem Shows.matches
    {sema : KSemaphore Thread}
    {c : Counter Thread}
    {l : SemaphoreStep Thread}
    (hShows : Shows b n sema c)
    (hHonours :
      ∀ r, Counter.machine.step c l = some r →
        b.Honours n c l) :
    Machine.Matches (machine b) Counter.machine (Shows b n)
      sema c l := by
  rcases hShows with ⟨hMaximum, hCounter⟩
  subst hCounter
  cases l with
  | wait t =>
      by_cases hIn : t ∈ sema.handle.waiting
      · left
        exact ⟨if_pos hIn, if_pos hIn⟩
      · right
        exact
          ⟨_, _, _, if_neg hIn, if_neg hIn, hMaximum, rfl⟩
  | interrupt t =>
      by_cases hIn : t ∈ sema.handle.waiting
      · right
        exact
          ⟨_, _, _, if_pos hIn, if_pos hIn, hMaximum, rfl⟩
      · left
        exact ⟨if_neg hIn, if_neg hIn⟩
  | pass t =>
      by_cases hPass :
          t ∈ sema.handle.waiting ∧ 0 < sema.handle.count
      · right
        have hTrue : waited b 0 = true := by
          cases b <;> rfl
        refine
          ⟨some true, ⟨sema.handle.take t⟩, _, ?_,
            if_pos hPass, hMaximum, rfl⟩
        show (if _ then _ else _) = _
        rw [if_pos hPass, hTrue]
      · left
        exact ⟨if_neg hPass, if_neg hPass⟩
  | signal t =>
      by_cases hIn : t ∈ sema.handle.waiting
      · left
        exact ⟨if_pos hIn, if_pos hIn⟩
      · right
        have hSignal :=
          signal_of_honours hMaximum
            (hHonours _ (if_neg hIn))
        refine
          ⟨some true, ⟨sema.handle.posted⟩, _, ?_,
            if_neg hIn, hMaximum, rfl⟩
        show (if _ then _ else _) = _
        rw [if_neg hIn, hSignal]

/- A signal that is not honoured returns false. -/
theorem Shows.honours
    {sema : KSemaphore Thread}
    {c c' : Counter Thread}
    {l : SemaphoreStep Thread}
    {v : Option Bool}
    (hShows : Shows b n sema c)
    (hStep : Counter.machine.step c l = some (v, c'))
    (hSame :
      ∃ sema', (machine b).step sema l = some (v, sema')) :
    b.Honours n c l := by
  rcases hShows with ⟨hMaximum, hCounter⟩
  subst hCounter
  cases l with
  | signal t =>
      by_cases hIn : t ∈ sema.handle.waiting
      · have hNone :
            Counter.machine.step sema.counter (.signal t) =
              none :=
          if_pos hIn
        rw [hNone] at hStep
        cases hStep
      · rcases hSame with ⟨sema', hSame⟩
        have hTrue :
            Counter.machine.step sema.counter (.signal t) =
              some (some true, _) :=
          if_neg hIn
        have hOurs :
            (machine b).step sema (.signal t) =
              some
                (some (signal b sema).1,
                  (signal b sema).2) :=
          if_neg hIn
        rw [hTrue] at hStep
        rw [hOurs] at hSame
        cases hStep
        apply honours_of_signal hMaximum
        simp only [Option.some.injEq, Prod.mk.injEq] at hSame
        exact hSame.1
  | _ => trivial

end KSemaphore

end KDoth

------------------------------------------------------------
-- One Counting Semaphore
------------------------------------------------------------

namespace KDoth

namespace KSemaphore

variable {Thread : Type} [DecidableEq Thread]

/-
  The back ends are one counting semaphore exactly for the
  counts they represent and the signals they honour.
-/
theorem conforms_iff
    (b : BackEnd)
    (n : UInt64)
    (steps : List (SemaphoreStep Thread)) :
    Conforms b n steps ↔
      b.Represents n ∧
        Counter.machine.Meets (b.Honours n)
          (Counter.new n.toNat) steps := by
  have hRun :
      ∀ sema, Shows b n sema (Counter.new n.toNat) →
        ((machine b).Alike Counter.machine
            (fun s c => s.counter = c)
            sema (Counter.new n.toNat) steps ↔
          Counter.machine.Meets (b.Honours n)
            (Counter.new n.toNat) steps) := by
    intro sema hShows
    exact
      Machine.alike_iff_meets
        (fun _ _ hRel => hRel.counter)
        (fun _ _ _ hRel => hRel.matches)
        (fun _ _ _ _ _ hRel => hRel.honours)
        hShows steps
  constructor
  · intro hConforms
    cases hNew :
        (newHandle n b : Option (SemaphoreHandle Thread)) with
    | none =>
        have hNull :
            (new true b n : Option (KSemaphore Thread)) =
              none := by
          simp [new, hNew]
        unfold Conforms at hConforms
        rw [hNull] at hConforms
        exact hConforms.elim
    | some handle =>
        have hSome :
            (new true b n : Option (KSemaphore Thread)) =
              some ⟨handle⟩ := by
          simp [new, hNew]
        unfold Conforms at hConforms
        rw [hSome] at hConforms
        have hView : counter ⟨handle⟩ = Counter.new n.toNat :=
          hConforms.view
        have hFits : b.Represents n :=
          represents_of_newHandle hNew
            (congrArg Counter.count hView)
        rw [newHandle_of_represents hFits] at hNew
        cases hNew
        exact ⟨hFits, (hRun _ ⟨rfl, hView⟩).mp hConforms⟩
  · intro hBoth
    rcases hBoth with ⟨hFits, hMeets⟩
    have hSome :
        new true b n =
          some
            (⟨.created n.toNat (maximumOf b n)⟩ :
              KSemaphore Thread) := by
      simp [new, newHandle_of_represents hFits]
    unfold Conforms
    rw [hSome]
    exact (hRun _ ⟨rfl, rfl⟩).mpr hMeets

/-
  On Darwin a signal that no thread waits for returns false.
  On Windows a semaphore cannot start at zero, and a signal
  at the initial count is lost. On POSIX the initial count
  loses its upper half.
-/
theorem signals_lost :
    ¬ Conforms .darwin 0 [SemaphoreStep.signal 0] ∧
      ¬ Conforms .windows 0 ([] : List (SemaphoreStep Nat)) ∧
      ¬ Conforms .windows 1 [SemaphoreStep.signal 0] ∧
      ¬ Conforms .posix 4294967296
          ([] : List (SemaphoreStep Nat)) := by
  refine ⟨?_, ?_, ?_, ?_⟩
  · intro hConforms
    have hReturned : some false = some true := hConforms.2.1
    cases hReturned
  · intro hConforms
    exact hConforms
  · intro hConforms
    have hReturned : some false = some true := hConforms.2.1
    cases hReturned
  · intro hConforms
    have hCount : 0 = 4294967296 :=
      congrArg Counter.count hConforms
    cases hCount

end KSemaphore

end KDoth
