import Mathlib.Logic.Function.Basic
import KDoth.Foundations.TransitionSystem

/-
  A thread object with its two sides: the threads that hold
  references to it and the child, which gives its own back
  before its procedure runs. Each operation on the count is
  one step.

  Key definitions include:
    * `ChildPhase`
    * `ThreadCall`
    * `KThread`
    * `KThread.new`
    * `ThreadStep`
    * `kThread`
    * `KThread.ReleasesAfterChild`

  Key theorems include:
    * `KThread.Joins.next`
    * `KThread.releases_join`
    * `KThread.early_release_returns`
    * `KThread.child_deinitializes`
-/

------------------------------------------------------------
-- State
------------------------------------------------------------

namespace KDoth

/- Where the child is in `KThreadMain`. -/
inductive ChildPhase where
  /- Before its `KThreadRelease`. -/
  | start
  /- In `KThreadDeInit`, before the test of `KThreadJoin`. -/
  | deInit
  /- In `pthread_join` of itself. -/
  | joining
  | running
  | finished
deriving DecidableEq

/- Where another thread is in `KThreadJoin`. -/
inductive JoinPhase where
  | idle
  /- Before the test of the flags. -/
  | entering
  /- In `pthread_join`. -/
  | joining
  | returned
deriving DecidableEq

/-
  A call of `KThreadJoin`, or of `KThreadRelease`, which joins
  in `KThreadDeInit` if the count reaches zero. The last field
  marks the release of the last reference outside the child.
-/
structure ThreadCall where
  phase : JoinPhase
  deInit : Bool
  lastOutside : Bool
deriving DecidableEq

/-
  The object with its count, of which `outside` references
  are those of other threads. It is theirs to use once
  `KThreadNew` has filled it in and returned.
-/
structure KThread where
  refCount : Nat
  outside : Nat
  isValid : Bool
  isJoined : Bool
  child : ChildPhase
  calls : Nat → ThreadCall
  nextCall : Nat
  freed : Bool

end KDoth

------------------------------------------------------------
-- Steps
------------------------------------------------------------

namespace KDoth

/- The steps of both sides. -/
inductive ThreadStep where
  | create
  | retain
  | release
  | join
  | enterJoin (c : Nat)
  | leaveJoin (c : Nat)
  | childRelease
  | childEnterJoin
  | childLeaveJoin
  | childFinish
deriving DecidableEq

namespace KThread

/- After `pthread_create`, with the reference of the child. -/
def new : KThread where
  refCount := 2
  outside := 1
  isValid := false
  isJoined := false
  child := .start
  calls := fun _ =>
    { phase := .idle, deInit := false, lastOutside := false }
  nextCall := 0
  freed := false

/- `KThreadNew` has stored the handle and returned. -/
def Created (s : KThread) : Prop :=
  s.isValid = true ∨ s.isJoined = true

/- `KThreadJoin` has nothing to join. -/
def Skips (s : KThread) : Prop :=
  s.isJoined = true ∨ s.isValid = false

/- No call of another thread is in progress. -/
def Quiet (s : KThread) : Prop :=
  ∀ c < s.nextCall, (s.calls c).phase = .returned

/- Another call is in `pthread_join` as well. -/
def JoinedTwice (s : KThread) (c : Nat) : Prop :=
  ∃ d < s.nextCall, d ≠ c ∧ (s.calls d).phase = .joining

/-
  When a step can be taken. A thread joins with a reference
  that it keeps until the join returns. Two joins of one
  thread at once have no defined result, and one may return
  at once. The join of the child by itself fails at once.
-/
def Enabled (s : KThread) : ThreadStep → Prop
| .create => s.isValid = false ∧ s.isJoined = false
| .retain => s.Created ∧ 0 < s.outside
| .release =>
    s.Created ∧ 0 < s.outside ∧ (s.outside = 1 → s.Quiet)
| .join => s.Created ∧ 0 < s.outside
| .enterJoin c => (s.calls c).phase = .entering
| .leaveJoin c =>
    (s.calls c).phase = .joining ∧
      (s.child = .finished ∨ s.JoinedTwice c)
| .childRelease => s.child = .start
| .childEnterJoin => s.child = .deInit
| .childLeaveJoin => s.child = .joining
| .childFinish => s.child = .running

def setCall
    (s : KThread)
    (c : Nat)
    (phase : JoinPhase) : KThread :=
  { s with
    calls :=
      Function.update s.calls c
        { s.calls c with phase := phase } }

/- The memory is freed at the end of a deinitialization. -/
def finishCall (s : KThread) (c : Nat) : KThread :=
  { s.setCall c .returned with
    freed := s.freed || (s.calls c).deInit }

def beginCall (s : KThread) (call : ThreadCall) : KThread :=
  { s with
    calls := Function.update s.calls s.nextCall call
    nextCall := s.nextCall + 1 }

instance (s : KThread) : Decidable s.Skips := by
  unfold Skips
  infer_instance

/- The state after an enabled step. -/
def next (s : KThread) : ThreadStep → KThread
| .create => { s with isValid := true }
| .retain =>
    { s with
      refCount := s.refCount + 1
      outside := s.outside + 1 }
| .release =>
    { s with
      refCount := s.refCount - 1
      outside := s.outside - 1 }.beginCall
        { phase :=
            if s.refCount = 1 then .entering else .returned
          deInit := s.refCount == 1
          lastOutside := s.outside == 1 }
| .join =>
    s.beginCall
      { phase := .entering, deInit := false
        lastOutside := false }
| .enterJoin c =>
    if s.Skips then
      s.finishCall c
    else
      s.setCall c .joining
| .leaveJoin c =>
    { s.finishCall c with isJoined := true, isValid := false }
| .childRelease =>
    { s with
      refCount := s.refCount - 1
      child := if s.refCount = 1 then .deInit else .running }
| .childEnterJoin =>
    if s.Skips then
      { s with child := .running, freed := true }
    else
      { s with child := .joining }
| .childLeaveJoin =>
    { s with
      isJoined := true
      isValid := false
      child := .running
      freed := true }
| .childFinish => { s with child := .finished }

instance (s : KThread) : Decidable s.Created := by
  unfold Created
  infer_instance

instance (s : KThread) : Decidable s.Quiet := by
  unfold Quiet
  infer_instance

instance (s : KThread) (c : Nat) : Decidable (s.JoinedTwice c) := by
  unfold JoinedTwice
  infer_instance

instance (s : KThread) (l : ThreadStep) : Decidable (s.Enabled l) := by
  cases l <;> unfold Enabled <;> infer_instance

end KThread

/- The thread with any number of threads that refer to it. -/
def kThread : TransitionSystem KThread ThreadStep where
  Init s := s = KThread.new
  step s l := if s.Enabled l then some (s.next l) else none

namespace KThread

/- A step is enabled and leads to the state after it. -/
theorem step_inv
    {s s' : KThread}
    {l : ThreadStep}
    (hStep : kThread.step s l = some s') :
    s.Enabled l ∧ s' = s.next l := by
  by_cases hEnabled : s.Enabled l
  · simp only [kThread, if_pos hEnabled,
      Option.some.injEq] at hStep
    exact ⟨hEnabled, hStep.symm⟩
  · simp [kThread, if_neg hEnabled] at hStep

end KThread

end KDoth

------------------------------------------------------------
-- The Invariant
------------------------------------------------------------

namespace KDoth

namespace KThread

variable {s : KThread}
variable {l : ThreadStep}

/-
  The last reference outside the child is given up when the
  child has given up its own.
-/
def ReleasesAfterChild (s : KThread) : ThreadStep → Prop
| .release => s.outside = 1 → s.child ≠ .start
| _ => True

instance
    (s : KThread)
    (l : ThreadStep) :
    Decidable (s.ReleasesAfterChild l) := by
  cases l <;> unfold ReleasesAfterChild <;> infer_instance

/- The references that the child has. -/
def childRefs (s : KThread) : Nat :=
  if s.child = .start then 1 else 0

/- Deinitialization waits for the child, on another thread. -/
structure Joins (s : KThread) : Prop where
  count : s.refCount = s.outside + s.childRefs
  child : s.child = .start → 0 < s.outside
  outside : s.child ≠ .deInit ∧ s.child ≠ .joining
  fresh : ∀ c, s.nextCall ≤ c → (s.calls c).phase = .idle
  created : ∀ c, (s.calls c).phase ≠ .idle → s.Created
  joined :
    s.isJoined = true →
      s.child = .finished ∨ ∃ c, (s.calls c).phase = .joining
  last :
    ∀ c,
      (s.calls c).phase ≠ .idle →
        (s.calls c).lastOutside = true →
          s.outside = 0 ∧
            (∀ d,
              d ≠ c →
                (s.calls d).phase = .idle ∨
                  (s.calls d).phase = .returned) ∧
              ((s.calls c).phase = .returned →
                s.child = .finished)

/- While others have references, none gave up the last. -/
theorem Joins.not_last
    (hJoins : s.Joins)
    (hOutside : 0 < s.outside)
    {c : Nat}
    (hBegun : (s.calls c).phase ≠ .idle) :
    (s.calls c).lastOutside ≠ true := by
  intro hLast
  have hNone := (hJoins.last c hBegun hLast).1
  omega

/- The call that gave up the last reference is alone. -/
theorem Joins.last_unique
    (hJoins : s.Joins)
    {c d : Nat}
    (hBegun : (s.calls c).phase ≠ .idle)
    (hLast : (s.calls c).lastOutside = true)
    (hIdle : (s.calls d).phase ≠ .idle)
    (hReturned : (s.calls d).phase ≠ .returned) :
    d = c := by
  by_contra hNe
  rcases (hJoins.last c hBegun hLast).2.1 d hNe with hBad | hBad
  · exact hIdle hBad
  · exact hReturned hBad

theorem calls_setCall
    (s : KThread)
    (c d : Nat)
    (phase : JoinPhase) :
    (d = c ∧
        (s.setCall c phase).calls d =
          { s.calls c with phase := phase }) ∨
      (d ≠ c ∧ (s.setCall c phase).calls d = s.calls d) := by
  by_cases hEq : d = c
  · subst hEq
    exact .inl ⟨rfl, Function.update_self ..⟩
  · exact .inr ⟨hEq, Function.update_of_ne hEq ..⟩

theorem calls_beginCall
    (s : KThread)
    (call : ThreadCall)
    (d : Nat) :
    (d = s.nextCall ∧ (s.beginCall call).calls d = call) ∨
      (d ≠ s.nextCall ∧
        (s.beginCall call).calls d = s.calls d) := by
  by_cases hEq : d = s.nextCall
  · subst hEq
    exact .inl ⟨rfl, Function.update_self ..⟩
  · exact .inr ⟨hEq, Function.update_of_ne hEq ..⟩

/- A new call is not in progress yet when it begins. -/
theorem Joins.begins
    (hJoins : s.Joins)
    (s' : KThread)
    {call : ThreadCall}
    (hCount : s'.refCount = s'.outside + s'.childRefs)
    (hChild : s'.child = s.child)
    (hOutside : s'.child = .start → 0 < s'.outside)
    (hValid : s'.isValid = s.isValid)
    (hJoined : s'.isJoined = s.isJoined)
    (hCalls : s'.calls = (s.beginCall call).calls)
    (hNext : s'.nextCall = s.nextCall + 1)
    (hCreated : s.Created)
    (hReferred : 0 < s.outside)
    (hLast :
      call.lastOutside = true →
        s'.outside = 0 ∧ s.Quiet ∧ call.phase ≠ .returned) :
    s'.Joins := by
  constructor
  · exact hCount
  · exact hOutside
  · rw [hChild]
    exact hJoins.outside
  · intro c hNew
    rw [hCalls]
    rcases s.calls_beginCall call c with
      ⟨hSelf, _⟩ | ⟨_, hSame⟩
    · omega
    · rw [hSame]
      exact hJoins.fresh c (by omega)
  · intro c _
    unfold Created
    rw [hValid, hJoined]
    exact hCreated
  · intro hTrue
    rw [hJoined] at hTrue
    rw [hChild]
    rcases hJoins.joined hTrue with hFinished | ⟨c, hPhase⟩
    · exact .inl hFinished
    · right
      refine ⟨c, ?_⟩
      rw [hCalls]
      rcases s.calls_beginCall call c with
        ⟨hSelf, _⟩ | ⟨_, hSame⟩
      · rw [hJoins.fresh c (Nat.le_of_eq hSelf.symm)] at hPhase
        cases hPhase
      · rw [hSame]
        exact hPhase
  · intro c hBegun hMarked
    rw [hCalls] at hBegun hMarked
    rcases s.calls_beginCall call c with
      ⟨hSelf, hSame⟩ | ⟨_, hSame⟩
    · rw [hSame] at hMarked
      rcases hLast hMarked with ⟨hNone, hQuiet, hPhase⟩
      refine ⟨hNone, ?_, ?_⟩
      · intro d hNe
        rw [hCalls]
        rcases s.calls_beginCall call d with
          ⟨hBad, _⟩ | ⟨_, hOld⟩
        · exact absurd (hBad.trans hSelf.symm) hNe
        · rw [hOld]
          by_cases hBound : d < s.nextCall
          · exact .inr (hQuiet d hBound)
          · exact .inl (hJoins.fresh d (by omega))
      · intro hReturned
        rw [hCalls, hSame] at hReturned
        exact absurd hReturned hPhase
    · rw [hSame] at hBegun hMarked
      exact absurd hMarked (hJoins.not_last hReferred hBegun)

/- A call in progress takes a step and no other changes. -/
theorem Joins.moves
    (hJoins : s.Joins)
    (s' : KThread)
    {c : Nat}
    {phase : JoinPhase}
    (hCount : s'.refCount = s.refCount)
    (hOutside : s'.outside = s.outside)
    (hChild : s'.child = s.child)
    (hCalls : s'.calls = (s.setCall c phase).calls)
    (hNext : s'.nextCall = s.nextCall)
    (hActive : (s.calls c).phase ≠ .idle)
    (hPending : (s.calls c).phase ≠ .returned)
    (hCreated : s'.Created)
    (hJoined :
      s'.isJoined = true →
        s.child = .finished ∨
          ∃ d, (s'.calls d).phase = .joining)
    (hLast :
      (s.calls c).lastOutside = true →
        phase = .returned → s.child = .finished) :
    s'.Joins := by
  constructor
  · rw [hCount, hOutside, hJoins.count, childRefs, childRefs,
      hChild]
  · rw [hChild, hOutside]
    exact hJoins.child
  · rw [hChild]
    exact hJoins.outside
  · intro d hNew
    rw [hNext] at hNew
    rw [hCalls]
    rcases s.calls_setCall c d phase with
      ⟨hSelf, _⟩ | ⟨_, hSame⟩
    · rw [hSelf] at hNew
      exact absurd (hJoins.fresh c hNew) hActive
    · rw [hSame]
      exact hJoins.fresh d hNew
  · intro _ _
    exact hCreated
  · rw [hChild]
    exact hJoined
  · intro d hBegun hMarked
    rw [hCalls] at hBegun hMarked
    have hBefore :
        (s.calls d).phase ≠ .idle ∧
          (s.calls d).lastOutside = true := by
      rcases s.calls_setCall c d phase with
        ⟨rfl, hSame⟩ | ⟨_, hSame⟩
      · rw [hSame] at hMarked
        exact ⟨hActive, hMarked⟩
      · rw [hSame] at hBegun hMarked
        exact ⟨hBegun, hMarked⟩
    have hSelf : c = d :=
      hJoins.last_unique hBefore.1 hBefore.2 hActive hPending
    subst hSelf
    rcases hJoins.last c hBefore.1 hBefore.2 with
      ⟨hNone, hOthers, _⟩
    refine ⟨hOutside.trans hNone, ?_, ?_⟩
    · intro e hNe
      rw [hCalls]
      rcases s.calls_setCall c e phase with
        ⟨hBad, _⟩ | ⟨_, hSame⟩
      · exact absurd hBad hNe
      · rw [hSame]
        exact hOthers e hNe
    · intro hReturned
      rw [hCalls] at hReturned
      rcases s.calls_setCall c c phase with
        ⟨_, hSame⟩ | ⟨hBad, _⟩
      · rw [hSame] at hReturned
        rw [hChild]
        exact hLast hBefore.2 hReturned
      · exact absurd rfl hBad

/- A call that stays in a join while another one moves. -/
theorem joining_setCall
    {c d : Nat}
    (phase : JoinPhase)
    (hOther : d ≠ c)
    (hPhase : (s.calls d).phase = .joining) :
    ((s.setCall c phase).calls d).phase = .joining := by
  rcases s.calls_setCall c d phase with
    ⟨hSelf, _⟩ | ⟨_, hSame⟩
  · exact absurd hSelf hOther
  · rw [hSame]
    exact hPhase

/- Nobody else is in a join at the last release. -/
theorem Joins.last_joining
    (hJoins : s.Joins)
    {c d : Nat}
    (hBegun : (s.calls c).phase ≠ .idle)
    (hLast : (s.calls c).lastOutside = true)
    (hPhase : (s.calls d).phase = .joining) :
    d = c := by
  apply hJoins.last_unique hBegun hLast
  · rw [hPhase]
    simp
  · rw [hPhase]
    simp

/- Another thread gives up a reference. -/
theorem Joins.releases
    (hJoins : s.Joins)
    (hEnabled : s.Enabled .release)
    (hAfter : s.ReleasesAfterChild .release) :
    (s.next .release).Joins := by
  rcases hEnabled with ⟨hCreated, hOutside, hQuiet⟩
  have hCount := hJoins.count
  refine
    hJoins.begins (s.next .release) ?_ rfl ?_ rfl rfl rfl rfl
      hCreated hOutside ?_
  rotate_left 2
  · intro hMarked
    have hLast : s.outside = 1 := by simpa using hMarked
    have hZero : s.childRefs = 0 := if_neg (hAfter hLast)
    refine ⟨?_, hQuiet hLast, ?_⟩
    · change s.outside - 1 = 0
      omega
    · rw [if_pos (by omega)]
      simp
  · change s.refCount - 1 = s.outside - 1 + s.childRefs
    omega
  · intro hStart
    have hMore : s.outside ≠ 1 := fun hLast =>
      hAfter hLast hStart
    change 0 < s.outside - 1
    omega

/- A call finds the thread joined, or begins to wait. -/
theorem Joins.enters
    (hJoins : s.Joins)
    {c : Nat}
    (hEntering : (s.calls c).phase = .entering) :
    (s.next (.enterJoin c)).Joins := by
  have hActive : (s.calls c).phase ≠ .idle := by
    rw [hEntering]
    simp
  have hPending : (s.calls c).phase ≠ .returned := by
    rw [hEntering]
    simp
  have hOther :
      ∀ {d}, (s.calls d).phase = .joining → d ≠ c := by
    intro d hPhase hSelf
    rw [hSelf, hEntering] at hPhase
    cases hPhase
  have hCreated := hJoins.created c hActive
  by_cases hSkips : s.Skips
  · have hEq : s.next (.enterJoin c) = s.finishCall c :=
      if_pos hSkips
    rw [hEq]
    refine
      hJoins.moves (s.finishCall c) rfl rfl rfl rfl rfl hActive
        hPending hCreated ?_ ?_
    · intro hTrue
      rcases hJoins.joined hTrue with hFinished | ⟨d, hPhase⟩
      · exact .inl hFinished
      · exact
          .inr
            ⟨d, joining_setCall .returned (hOther hPhase) hPhase⟩
    · intro hMarked _
      have hTrue : s.isJoined = true := by
        rcases hSkips with hTrue | hInvalid
        · exact hTrue
        · rcases hCreated with hValid | hTrue
          · rw [hInvalid] at hValid
            cases hValid
          · exact hTrue
      rcases hJoins.joined hTrue with hFinished | ⟨d, hPhase⟩
      · exact hFinished
      · have hSelf :=
          hJoins.last_joining hActive hMarked hPhase
        exact absurd hSelf (hOther hPhase)
  · have hEq : s.next (.enterJoin c) = s.setCall c .joining :=
      if_neg hSkips
    rw [hEq]
    refine
      hJoins.moves (s.setCall c .joining) rfl rfl rfl rfl rfl
        hActive hPending hCreated ?_ ?_
    · intro hTrue
      exact absurd (.inl hTrue) hSkips
    · intro _ hBad
      cases hBad

/- The wait of a call is over. -/
theorem Joins.leaves
    (hJoins : s.Joins)
    {c : Nat}
    (hEnabled : s.Enabled (.leaveJoin c)) :
    (s.next (.leaveJoin c)).Joins := by
  rcases hEnabled with ⟨hJoining, hReturns⟩
  have hActive : (s.calls c).phase ≠ .idle := by
    rw [hJoining]
    simp
  have hPending : (s.calls c).phase ≠ .returned := by
    rw [hJoining]
    simp
  refine
    hJoins.moves (s.next (.leaveJoin c)) rfl rfl rfl rfl rfl
      hActive hPending (.inr rfl) ?_ ?_
  · intro _
    rcases hReturns with hFinished | ⟨d, _, hNe, hPhase⟩
    · exact .inl hFinished
    · exact .inr ⟨d, joining_setCall .returned hNe hPhase⟩
  · intro hMarked _
    rcases hReturns with hFinished | ⟨d, _, hNe, hPhase⟩
    · exact hFinished
    · have hSelf := hJoins.last_joining hActive hMarked hPhase
      exact absurd hSelf hNe

/- The child gives up its reference, which is not the last. -/
theorem Joins.childReleases
    (hJoins : s.Joins)
    (hStart : s.child = .start) :
    (s.next .childRelease).Joins := by
  have hOutside := hJoins.child hStart
  have hRefs : s.childRefs = 1 := if_pos hStart
  have hCount := hJoins.count
  have hMore : s.refCount ≠ 1 := by omega
  have hChild : (s.next .childRelease).child = .running :=
    if_neg hMore
  exact
    { count := by
        rw [childRefs, hChild]
        change s.refCount - 1 = s.outside + 0
        omega
      child := by
        rw [hChild]
        exact nofun
      outside := by
        rw [hChild]
        exact ⟨nofun, nofun⟩
      fresh := hJoins.fresh
      created := hJoins.created
      joined := by
        intro hTrue
        rcases hJoins.joined hTrue with hBad | hPhase
        · rw [hStart] at hBad
          cases hBad
        · exact .inr hPhase
      last := fun c hBegun hMarked =>
        absurd hMarked (hJoins.not_last hOutside hBegun) }

/- The child has returned. -/
theorem Joins.childFinishes
    (hJoins : s.Joins)
    (hRunning : s.child = .running) :
    (s.next .childFinish).Joins := by
  have hRefs : s.childRefs = 0 :=
    if_neg (by rw [hRunning]; exact nofun)
  have hCount := hJoins.count
  exact
    { count := by
        change s.refCount = s.outside + 0
        omega
      child := nofun
      outside := ⟨nofun, nofun⟩
      fresh := hJoins.fresh
      created := hJoins.created
      joined := fun _ => .inl rfl
      last := by
        intro c hBegun hMarked
        rcases hJoins.last c hBegun hMarked with
          ⟨hNone, hOthers, _⟩
        exact ⟨hNone, hOthers, fun _ => rfl⟩ }

/- By cases on the step. -/
theorem Joins.next
    (hJoins : s.Joins)
    (hEnabled : s.Enabled l)
    (hAfter : s.ReleasesAfterChild l) :
    (s.next l).Joins := by
  cases l with
  | create =>
      exact
        { count := hJoins.count
          child := hJoins.child
          outside := hJoins.outside
          fresh := hJoins.fresh
          created := fun _ _ => .inl rfl
          joined := hJoins.joined
          last := hJoins.last }
  | retain =>
      have hCount := hJoins.count
      exact
        { count := by
            change s.refCount + 1 = s.outside + 1 + s.childRefs
            omega
          child := fun _ => Nat.succ_pos _
          outside := hJoins.outside
          fresh := hJoins.fresh
          created := hJoins.created
          joined := hJoins.joined
          last := fun c hBegun hMarked =>
            absurd hMarked (hJoins.not_last hEnabled.2 hBegun) }
  | release => exact hJoins.releases hEnabled hAfter
  | join =>
      refine
        hJoins.begins (s.next .join) hJoins.count rfl
          hJoins.child rfl rfl rfl rfl hEnabled.1 hEnabled.2 ?_
      intro hMarked
      cases hMarked
  | enterJoin c => exact hJoins.enters hEnabled
  | leaveJoin c => exact hJoins.leaves hEnabled
  | childRelease => exact hJoins.childReleases hEnabled
  | childEnterJoin => exact absurd hEnabled hJoins.outside.1
  | childLeaveJoin => exact absurd hEnabled hJoins.outside.2
  | childFinish => exact hJoins.childFinishes hEnabled

end KThread

end KDoth

------------------------------------------------------------
-- Main Result
------------------------------------------------------------

namespace KDoth

namespace KThread

variable {s : KThread}

/- The child is in `KThreadDeInit`. -/
def ChildDeInits (s : KThread) : Prop :=
  s.child = .deInit ∨ s.child = .joining

/-
  A returned call that gave up the last reference outside the
  child returned after the end of the procedure.
-/
def ReleaseJoined (s : KThread) : Prop :=
  ∀ c,
    (s.calls c).phase = .returned →
      (s.calls c).lastOutside = true → s.child = .finished

theorem Joins.new : new.Joins := by
  constructor
  · rfl
  · intro _
    exact Nat.one_pos
  · exact ⟨nofun, nofun⟩
  · intro c _
    rfl
  · intro c hBegun
    exact absurd rfl hBegun
  · intro hTrue
    cases hTrue
  · intro c hBegun
    exact absurd rfl hBegun

/- The invariant has what is claimed of a state. -/
theorem Joins.safe
    (hJoins : s.Joins) :
    ¬ s.ChildDeInits ∧ s.ReleaseJoined := by
  constructor
  · rintro (hBad | hBad)
    · exact hJoins.outside.1 hBad
    · exact hJoins.outside.2 hBad
  · intro c hReturned hLast
    have hBegun : (s.calls c).phase ≠ .idle := by
      rw [hReturned]
      simp
    exact (hJoins.last c hBegun hLast).2.2 hReturned

/-
  Giving up the last reference outside before the child has
  given up its own returns at once, before the procedure runs.
-/
theorem early_release_returns
    {l : ThreadStep}
    (hCount : s.refCount = s.outside + s.childRefs)
    (hEnabled : s.Enabled l)
    (hEarly : ¬ s.ReleasesAfterChild l) :
    ¬ (s.next l).ReleaseJoined := by
  cases l with
  | release =>
      have hBoth : s.outside = 1 ∧ s.child = .start := by
        unfold ReleasesAfterChild at hEarly
        simpa using hEarly
      have hRefs : s.childRefs = 1 := if_pos hBoth.2
      have hTwo : s.refCount ≠ 1 := by omega
      have hCall :
          (s.next .release).calls s.nextCall =
            { phase := .returned
              deInit := s.refCount == 1
              lastOutside := s.outside == 1 } := by
        simp [next, beginCall, hTwo]
      intro hJoined
      have hFinished : s.child = .finished := by
        apply hJoined s.nextCall
        · rw [hCall]
        · rw [hCall, hBoth.1]
          rfl
      rw [hBoth.2] at hFinished
      cases hFinished
  | _ => exact absurd trivial hEarly

/-
  In every run in which the last reference outside the child
  is given up after the child has given up its own, the child
  never deinitializes the thread, and the release of that
  reference returns only after the procedure has finished. A
  step keeps this up exactly if it meets the condition.
-/
theorem releases_join
    (hReach :
      kThread.ReachableWhere
        (fun s l => s.ReleasesAfterChild l) s) :
    (¬ s.ChildDeInits ∧ s.ReleaseJoined) ∧
      ∀ l s',
        kThread.step s l = some s' →
          ((¬ s'.ChildDeInits ∧ s'.ReleaseJoined) ↔
            s.ReleasesAfterChild l) := by
  have hJoins : s.Joins := by
    apply hReach.invariant
    · intro s hInit
      rw [hInit]
      exact .new
    · intro s l s' hJoins hAfter hStep
      rcases step_inv hStep with ⟨hEnabled, rfl⟩
      exact hJoins.next hEnabled hAfter
  refine ⟨hJoins.safe, ?_⟩
  intro l s' hStep
  rcases step_inv hStep with ⟨hEnabled, rfl⟩
  constructor
  · intro hSafe
    by_contra hEarly
    exact
      early_release_returns hJoins.count hEnabled hEarly
        hSafe.2
  · intro hAfter
    exact (hJoins.next hEnabled hAfter).safe

/- A release that the child joins, seen from the creator. -/
theorem releases_join_after_start :
    ∃ s,
      kThread.exec new
          [.create, .childRelease, .release, .enterJoin 0,
            .childFinish, .leaveJoin 0] = some s ∧
        s.freed = true ∧ ¬ s.ChildDeInits ∧
          s.ReleaseJoined := by
  have hMeets :
      kThread.ExecMeets (fun s l => s.ReleasesAfterChild l) new
        [.create, .childRelease, .release, .enterJoin 0,
          .childFinish, .leaveJoin 0] := by
    decide
  have hReach :=
    TransitionSystem.reachableWhere_of_exec
      (.init rfl) hMeets rfl
  exact ⟨_, rfl, rfl, (releases_join hReach).1⟩

/-
  The creator releases the thread before the child has run:
  that release returns, and the child deinitializes and joins
  itself before its procedure runs.
-/
theorem child_deinitializes :
    ∃ s,
      kThread.Reachable s ∧ s.ChildDeInits ∧
        ¬ s.ReleaseJoined := by
  have hExec :
      kThread.exec new [.create, .release, .childRelease] =
        some _ := rfl
  have hReach : kThread.Reachable _ :=
    TransitionSystem.reachable_of_exec rfl hExec
  refine ⟨_, hReach, .inl rfl, ?_⟩
  intro hJoined
  cases hJoined 0 rfl rfl

end KThread

end KDoth
