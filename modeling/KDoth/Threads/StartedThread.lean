import Mathlib.Logic.Function.Basic

/-
  A thread that `KWorkerPoolNew` starts: its object with its
  count, and its way through `KThreadMain` and the main
  function of a worker. No task is ever in the list, since
  nobody else has the pool yet.

  Key definitions include:
    * `StartedThread`
    * `StartedThread.join`
    * `StartedThread.run`
    * `StartedThread.Recorded`
    * `StartedThread.Goes`

  Key theorems include:
    * `StartedThread.goes_of_run`
    * `StartedThread.Recorded.join`
-/

------------------------------------------------------------
-- Started Threads
------------------------------------------------------------

namespace KDoth

/- Where a started thread is. -/
inductive StartedPhase where
  /- In `KThreadMain`, before its `KThreadRelease`. -/
  | start
  /- In `KThreadDeInit`, with the last reference. -/
  | deInit
  /- About to enter the critical section of the worker. -/
  | loop
  | entered
  | waiting
  | awake
  | reentered
  | ended
deriving DecidableEq, Repr

/-
  The object of a started thread and what the thread does.
  `joined` records that another thread waited for its end.
-/
structure StartedThread where
  refCount : Nat
  isValid : Bool
  isJoined : Bool
  phase : StartedPhase
  isRunning : Bool
  joined : Bool
deriving DecidableEq, Repr

/- What a step does with the mutex of the pool. -/
inductive MutexUse where
  | keeps
  | takes
  | gives
deriving DecidableEq, Repr

namespace StartedThread

/- `KThreadNew` up to `pthread_create`. -/
def new : StartedThread where
  refCount := 2
  isValid := false
  isJoined := false
  phase := .start
  isRunning := true
  joined := false

def retain (t : StartedThread) : StartedThread :=
  { t with refCount := t.refCount + 1 }

def release (t : StartedThread) : StartedThread :=
  { t with refCount := t.refCount - 1 }

/- `KThreadJoin` has nothing to join. -/
def Skips (t : StartedThread) : Bool :=
  t.isJoined || !t.isValid

/- `KThreadJoin` on another thread, which has to end. -/
def join (t : StartedThread) : Option StartedThread :=
  if t.Skips = true then
    some t
  else if t.phase = .ended then
    some
      { t with isJoined := true, isValid := false, joined := true }
  else
    none

/-
  `KThreadJoin` on the calling thread. `pthread_join` fails
  at once, which is not looked at.
-/
def joinSelf (t : StartedThread) : StartedThread :=
  if t.Skips = true then
    t
  else
    { t with isJoined := true, isValid := false }

/-
  From the test of `KWorkerPoolCVPredicate` on. There is no
  task to take, so the worker waits or goes around its loop.
-/
def waitOrLeave
    (t : StartedThread)
    (shutdown : Bool) : StartedThread :=
  if shutdown = false then
    { t with phase := .waiting }
  else if t.isRunning = true then
    { t with phase := .loop }
  else
    { t with phase := .ended }

/- A blocked worker is woken. -/
def wake (t : StartedThread) : StartedThread :=
  if t.phase = .waiting then { t with phase := .awake } else t

/-
  The next step of the thread, in `KThreadMain` and then in
  `KWorkerPoolWorkerMain`. `free` tells if the mutex is free.
-/
def run
    (t : StartedThread)
    (free shutdown : Bool) :
    Option (StartedThread × MutexUse) :=
  match t.phase with
  | .start =>
      some
        ({ t.release with
          phase := if t.refCount = 1 then .deInit else .loop },
          .keeps)
  | .deInit => some ({ t.joinSelf with phase := .loop }, .keeps)
  | .loop =>
      if free = true then
        some ({ t with phase := .entered }, .takes)
      else
        none
  | .entered =>
      some
        ({ t with
          isRunning := t.isRunning && !shutdown }.waitOrLeave
            shutdown,
          .gives)
  | .waiting => none
  | .awake =>
      if free = true then
        some ({ t with phase := .reentered }, .takes)
      else
        none
  | .reentered => some (t.waitOrLeave shutdown, .gives)
  | .ended => none

end StartedThread

end KDoth

------------------------------------------------------------
-- Steps of Threads
------------------------------------------------------------

namespace KDoth

namespace StartedThread

variable {t t' : StartedThread}
variable {free shutdown : Bool}
variable {use : MutexUse}

/- The thread has the mutex of the pool. -/
def Inside (t : StartedThread) : Prop :=
  t.phase = .entered ∨ t.phase = .reentered

/-
  The count of the object is that of `r` references and of
  the thread's own, which it has until it releases it.
-/
structure Held (t : StartedThread) (r : Nat) : Prop where
  count :
    t.refCount = r + (if t.phase = .start then 1 else 0)
  phase : t.phase ≠ .deInit

/- In the array, and not joined yet. -/
structure Recorded (t : StartedThread) (r : Nat) : Prop where
  held : t.Held r
  valid : t.isValid = true
  unjoined : t.isJoined = false

/- Joined by another thread after its end. -/
structure Done (t : StartedThread) : Prop where
  ended : t.phase = .ended
  joined : t.joined = true
  isJoined : t.isJoined = true

/- What a step of the thread keeps. -/
structure Goes
    (shutdown : Bool)
    (t t' : StartedThread) : Prop where
  held :
    ∀ r,
      0 < r → t.Held r →
        t'.Held r ∧ t'.isValid = t.isValid ∧
          t'.isJoined = t.isJoined
  ended : t.phase = .ended → t' = t
  waits :
    shutdown = true → t.phase ≠ .waiting → t'.phase ≠ .waiting

/- What a step of the thread does with the mutex. -/
inductive Uses
    (t t' : StartedThread)
    (free : Bool) : MutexUse → Prop
| keeps
    (hBefore : ¬ t.Inside) :
    Uses t t' free .keeps
| takes
    (hFree : free = true)
    (hAfter : t'.Inside) :
    Uses t t' free .takes
| gives :
    Uses t t' free .gives

/- A step that changes no more than the phase and the flag. -/
theorem Goes.of_phase
    (hStart : t.phase ≠ .start)
    (hEnded : t.phase ≠ .ended)
    {phase : StartedPhase}
    {isRunning : Bool}
    (hStart' : phase ≠ .start)
    (hDeInit : phase ≠ .deInit)
    (hWaits : shutdown = true → phase ≠ .waiting) :
    Goes shutdown t
      { t with phase := phase, isRunning := isRunning } := by
  refine ⟨?_, fun hEnd => absurd hEnd hEnded, ?_⟩
  · intro r _ hHeld
    refine ⟨⟨?_, hDeInit⟩, rfl, rfl⟩
    have hCount := hHeld.count
    rw [if_neg hStart] at hCount
    rw [if_neg hStart', hCount]
  · exact fun hSet _ => hWaits hSet

/- Past the predicate a worker waits, goes around or ends. -/
theorem waitOrLeave_cases
    (t : StartedThread)
    (shutdown : Bool) :
    (shutdown = false ∧
        t.waitOrLeave shutdown = { t with phase := .waiting }) ∨
      (shutdown = true ∧ t.isRunning = true ∧
        t.waitOrLeave shutdown = { t with phase := .loop }) ∨
      (shutdown = true ∧ t.isRunning = false ∧
        t.waitOrLeave shutdown = { t with phase := .ended }) := by
  unfold waitOrLeave
  cases shutdown <;> cases t.isRunning <;> simp

theorem Goes.of_waitOrLeave
    (hInside : t.Inside)
    (isRunning : Bool) :
    Goes shutdown t
      ({ t with isRunning := isRunning }.waitOrLeave
        shutdown) := by
  have hStart : t.phase ≠ .start := by
    rcases hInside with hPhase | hPhase <;> rw [hPhase] <;> nofun
  have hEnded : t.phase ≠ .ended := by
    rcases hInside with hPhase | hPhase <;> rw [hPhase] <;> nofun
  rcases waitOrLeave_cases { t with isRunning := isRunning }
      shutdown with
    ⟨hClear, hEq⟩ | ⟨_, _, hEq⟩ | ⟨_, _, hEq⟩
  · rw [hEq]
    refine .of_phase hStart hEnded nofun nofun ?_
    intro hSet
    rw [hClear] at hSet
    cases hSet
  · rw [hEq]
    exact .of_phase hStart hEnded nofun nofun (fun _ => nofun)
  · rw [hEq]
    exact .of_phase hStart hEnded nofun nofun (fun _ => nofun)

theorem goes_of_run
    (hRun : t.run free shutdown = some (t', use)) :
    Goes shutdown t t' ∧ Uses t t' free use := by
  unfold run at hRun
  cases hPhase : t.phase with
  | start =>
      simp only [hPhase, Option.some.injEq, Prod.mk.injEq] at hRun
      rcases hRun with ⟨rfl, rfl⟩
      constructor
      · constructor
        · intro r hPos hHeld
          have hCount := hHeld.count
          rw [if_pos hPhase] at hCount
          have hMore : t.refCount ≠ 1 := by omega
          rw [if_neg hMore]
          refine ⟨⟨?_, nofun⟩, rfl, rfl⟩
          change t.refCount - 1 = r + 0
          omega
        · intro hEnd
          rw [hPhase] at hEnd
          cases hEnd
        · intro _ _
          dsimp only
          split <;> nofun
      · apply Uses.keeps
        rintro (hBad | hBad) <;> rw [hPhase] at hBad <;> cases hBad
  | deInit =>
      simp only [hPhase, Option.some.injEq, Prod.mk.injEq] at hRun
      rcases hRun with ⟨rfl, rfl⟩
      constructor
      · constructor
        · intro r _ hHeld
          exact absurd hPhase hHeld.phase
        · intro hEnd
          rw [hPhase] at hEnd
          cases hEnd
        · exact fun _ _ => nofun
      · apply Uses.keeps
        rintro (hBad | hBad) <;> rw [hPhase] at hBad <;> cases hBad
  | loop =>
      cases free with
      | false => simp [hPhase] at hRun
      | true =>
          simp only [hPhase, if_true, Option.some.injEq,
            Prod.mk.injEq] at hRun
          rcases hRun with ⟨rfl, rfl⟩
          refine ⟨?_, .takes rfl (.inl rfl)⟩
          refine .of_phase ?_ ?_ nofun nofun (fun _ => nofun)
          · rw [hPhase]
            nofun
          · rw [hPhase]
            nofun
  | entered =>
      simp only [hPhase, Option.some.injEq, Prod.mk.injEq] at hRun
      rcases hRun with ⟨rfl, rfl⟩
      exact
        ⟨.of_waitOrLeave (.inl hPhase) _, .gives⟩
  | waiting => simp [hPhase] at hRun
  | awake =>
      cases free with
      | false => simp [hPhase] at hRun
      | true =>
          simp only [hPhase, if_true, Option.some.injEq,
            Prod.mk.injEq] at hRun
          rcases hRun with ⟨rfl, rfl⟩
          refine ⟨?_, .takes rfl (.inr rfl)⟩
          refine .of_phase ?_ ?_ nofun nofun (fun _ => nofun)
          · rw [hPhase]
            nofun
          · rw [hPhase]
            nofun
  | reentered =>
      simp only [hPhase, Option.some.injEq, Prod.mk.injEq] at hRun
      rcases hRun with ⟨rfl, rfl⟩
      exact
        ⟨.of_waitOrLeave (.inr hPhase) t.isRunning, .gives⟩
  | ended => simp [hPhase] at hRun

theorem goes_of_wake : Goes shutdown t t.wake := by
  unfold wake
  by_cases hWaiting : t.phase = .waiting
  · rw [if_pos hWaiting]
    refine .of_phase ?_ ?_ nofun nofun (fun _ => nofun)
    · rw [hWaiting]
      nofun
    · rw [hWaiting]
      nofun
  · rw [if_neg hWaiting]
    exact
      ⟨fun _ _ hHeld => ⟨hHeld, rfl, rfl⟩, fun _ => rfl,
        fun _ hNot => hNot⟩

theorem wake_phase : t.wake.phase ≠ .waiting := by
  unfold wake
  split
  · nofun
  · assumption

theorem wake_of_inside
    (hInside : t.Inside) :
    t.wake = t := by
  apply if_neg
  rcases hInside with hPhase | hPhase <;> rw [hPhase] <;> nofun

/- Who is joined for the first time has ended. -/
theorem Recorded.join
    {r : Nat}
    (hRecorded : t.Recorded r)
    (hJoin : t.join = some t') :
    t.phase = .ended ∧ t'.Done ∧ t'.refCount = r := by
  have hNot : t.Skips ≠ true := by
    simp [Skips, hRecorded.valid, hRecorded.unjoined]
  rw [StartedThread.join, if_neg hNot] at hJoin
  split at hJoin
  case isTrue hEnded =>
    cases hJoin
    refine ⟨hEnded, ⟨hEnded, rfl, rfl⟩, ?_⟩
    have hCount := hRecorded.held.count
    rw [hEnded] at hCount
    exact hCount
  case isFalse => cases hJoin

/- Who was joined is not waited for again. -/
theorem Done.join
    (hDone : t.Done) :
    t.join = some t := by
  apply if_pos
  simp [Skips, hDone.isJoined]

theorem Recorded.goes
    {r : Nat}
    (hRecorded : t.Recorded r)
    (hGoes : Goes shutdown t t')
    (hPos : 0 < r) :
    t'.Recorded r := by
  rcases hGoes.held r hPos hRecorded.held with
    ⟨hHeld, hValid, hJoined⟩
  refine ⟨hHeld, ?_, ?_⟩
  · rw [hValid, hRecorded.valid]
  · rw [hJoined, hRecorded.unjoined]

end StartedThread

end KDoth
