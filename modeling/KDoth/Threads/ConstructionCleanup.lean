import Mathlib.Data.Nat.Find
import KDoth.Threads.ConstructionProgress

/-
  When the construction of a pool cleans up after itself. A
  thread that was started and not recorded is waited for by
  the constructor, and nothing stops it.

  Key definitions include:
    * `PoolConstruction.Stuck`

  Key theorems include:
    * `PoolConstruction.Stuck.next`
    * `PoolConstruction.cleansUp_iff`
    * `PoolConstruction.cleansUp_fails`
-/

------------------------------------------------------------
-- A Thread That Is Not Recorded
------------------------------------------------------------

namespace KDoth

namespace StartedThread

variable {t t' : StartedThread}
variable {free : Bool}
variable {use : MutexUse}

/- In the loop of the worker, and not to leave it. -/
structure Loops (t : StartedThread) : Prop where
  phase :
    t.phase = .loop ∨ t.phase = .entered ∨
      t.phase = .waiting ∨ t.phase = .awake ∨
        t.phase = .reentered
  isRunning : t.isRunning = true
  valid : t.isValid = true
  unjoined : t.isJoined = false

theorem Loops.wake
    (hLoops : t.Loops) :
    t.wake.Loops := by
  rcases hLoops with ⟨hPhase, hRunning, hValid, hUnjoined⟩
  unfold StartedThread.wake
  split
  · exact
      ⟨.inr (.inr (.inr (.inl rfl))), hRunning, hValid,
        hUnjoined⟩
  · exact ⟨hPhase, hRunning, hValid, hUnjoined⟩

/- With the flag clear a worker stays in its loop. -/
theorem Loops.run
    (hLoops : t.Loops)
    (hRun : t.run free false = some (t', use)) :
    t'.Loops := by
  rcases hLoops with ⟨hPhase, hRunning, hValid, hUnjoined⟩
  unfold StartedThread.run at hRun
  rcases hPhase with hAt | hAt | hAt | hAt | hAt
  · cases free with
    | false => simp [hAt] at hRun
    | true =>
        simp only [hAt, if_true, Option.some.injEq,
          Prod.mk.injEq] at hRun
        rcases hRun with ⟨rfl, _⟩
        exact ⟨.inr (.inl rfl), hRunning, hValid, hUnjoined⟩
  · simp only [hAt, Option.some.injEq, Prod.mk.injEq] at hRun
    rcases hRun with ⟨rfl, _⟩
    refine ⟨.inr (.inr (.inl rfl)), ?_, hValid, hUnjoined⟩
    simp [waitOrLeave, hRunning]
  · simp [hAt] at hRun
  · cases free with
    | false => simp [hAt] at hRun
    | true =>
        simp only [hAt, if_true, Option.some.injEq,
          Prod.mk.injEq] at hRun
        rcases hRun with ⟨rfl, _⟩
        exact
          ⟨.inr (.inr (.inr (.inr rfl))), hRunning, hValid,
            hUnjoined⟩
  · simp only [hAt, Option.some.injEq, Prod.mk.injEq] at hRun
    rcases hRun with ⟨rfl, _⟩
    exact
      ⟨.inr (.inr (.inl rfl)), hRunning, hValid, hUnjoined⟩

theorem Loops.join
    (hLoops : t.Loops) :
    t.join = none := by
  have hNot : t.Skips ≠ true := by
    simp [Skips, hLoops.valid, hLoops.unjoined]
  rw [StartedThread.join, if_neg hNot, if_neg]
  rcases hLoops.phase with hAt | hAt | hAt | hAt | hAt <;>
    rw [hAt] <;> simp

end StartedThread

namespace PoolConstruction

open StartedThread

variable {workerCount : Nat}
variable {spawn : Nat → SpawnAnswer}
variable {grows : Nat → Bool}
variable {s s' : PoolConstruction}

/-
  The constructor waits in `KThreadDeInit` for a worker that
  only its own shutdown could stop.
-/
structure Stuck (s : PoolConstruction) : Prop where
  joins :
    ∃ k resume,
      s.phase = .joining k resume ∧ (s.threads k).Loops
  flag : s.shutdown = false

theorem Stuck.not_returned
    (hStuck : s.Stuck) :
    ¬ s.Returned := by
  rcases hStuck.joins with ⟨k, resume, hAt, _⟩
  rintro (hBad | hBad) <;> rw [hAt] at hBad <;> cases hBad

theorem Stuck.next
    {l : ConstructionStep}
    (hStuck : s.Stuck)
    (hStep : step workerCount spawn grows s l = some s') :
    s'.Stuck := by
  rcases hStuck with ⟨⟨k, resume, hAt, hLoops⟩, hFlag⟩
  have hMoves :
      ∀ m t mutex,
        (m = k → t.Loops) → (s.moveThread m t mutex).Stuck := by
    intro m t mutex hSelf
    refine ⟨⟨k, resume, hAt, ?_⟩, hFlag⟩
    rcases s.threads_moveThread_cases m t mutex k with
      ⟨rfl, hEq⟩ | ⟨_, hEq⟩
    · rw [hEq]
      exact hSelf rfl
    · rw [hEq]
      exact hLoops
  cases l with
  | construct =>
      have hNone : s.construct workerCount spawn grows = none := by
        unfold construct
        rw [hAt]
        dsimp only
        rw [joinThread, hLoops.join]
        rfl
      have hSome : s.construct workerCount spawn grows = some s' :=
        hStep
      rw [hNone] at hSome
      cases hSome
  | thread m =>
      have hRun : s.runThread m = some s' := hStep
      unfold PoolConstruction.runThread at hRun
      split at hRun
      case isTrue =>
        rcases Option.map_eq_some_iff.mp hRun with
          ⟨⟨t, use⟩, hThread, rfl⟩
        apply hMoves
        rintro rfl
        rw [hFlag] at hThread
        exact hLoops.run hThread
      case isFalse => cases hRun
  | spurious m =>
      unfold step at hStep
      dsimp only at hStep
      split at hStep
      case isTrue =>
        cases hStep
        apply hMoves
        rintro rfl
        exact hLoops.wake
      case isFalse => cases hStep

/- `KThreadNew` has started a thread and returned it. -/
theorem starts
    (grows : Nat → Bool)
    {i : Nat}
    (hAt : s.phase = .spawning i)
    (hMore : i < workerCount)
    (hSpawn : spawn i = .created) :
    ∃ s',
      (system workerCount spawn grows).Leads s s' ∧
        s'.phase = .adding i s.started ∧
          s.started < s'.started ∧ s'.shutdown = s.shutdown ∧
            s'.threads s.started =
              { StartedThread.new with isValid := true } := by
  have hFirst :
      s.construct workerCount spawn grows =
        some
          { s.setThread s.started .new with
            phase := .storing i s.started
            started := s.started + 1 } := by
    unfold construct
    rw [hAt]
    dsimp only
    rw [if_pos hMore, hSpawn]
  refine
    ⟨_, .trans (.single (l := .construct) hFirst)
      (.single (l := .construct) rfl), rfl, Nat.lt_succ_self _,
      rfl, ?_⟩
  simp [setThread]

/- An iteration without a thread goes on with the next. -/
theorem skips
    (grows : Nat → Bool)
    {i : Nat}
    (hAt : s.phase = .spawning i)
    (hMore : i < workerCount)
    (hSpawn : spawn i ≠ .created) :
    s.construct workerCount spawn grows =
      some { s with phase := .spawning (i + 1) } := by
  unfold construct
  rw [hAt]
  dsimp only
  rw [if_pos hMore]
  cases hAnswer : spawn i with
  | noObject => rfl
  | notCreated => rfl
  | created => exact absurd hAnswer hSpawn

/- An iteration that records the thread it starts, if any. -/
theorem iterate
    (grows : Nat → Bool)
    {i : Nat}
    (hAt : s.phase = .spawning i)
    (hMore : i < workerCount)
    (hGood : spawn i = .created → grows i = true) :
    ∃ s',
      (system workerCount spawn grows).Leads s s' ∧
        s'.phase = .spawning (i + 1) ∧
          s'.shutdown = s.shutdown := by
  by_cases hSpawn : spawn i = .created
  · rcases starts grows hAt hMore hSpawn with
      ⟨s₁, hLeads, hAdding, _, hFlag, hThread⟩
    have hAdd :
        s₁.construct workerCount spawn grows =
          some
            { s₁.setThread s.started
                (s₁.threads s.started).retain with
              phase := .releasing i s.started
              workers := s₁.workers ++ [s.started] } := by
      unfold construct
      rw [hAdding]
      dsimp only
      rw [if_pos (hGood hSpawn)]
    refine
      ⟨_, hLeads.trans (.trans (.single (l := .construct) hAdd)
        (.single (l := .construct) rfl)), ?_, hFlag⟩
    simp [releaseThread, setThread, hThread, retain,
      StartedThread.new, ConstructionPhase.resumed]
  · exact
      ⟨_, .single (l := .construct)
        (skips grows hAt hMore hSpawn), rfl, rfl⟩

/- The thread of the iteration is not recorded. -/
theorem sticks
    (spawn : Nat → SpawnAnswer)
    (grows : Nat → Bool)
    {i : Nat}
    (hAt : s.phase = .spawning i)
    (hMore : i < workerCount)
    (hSpawn : spawn i = .created)
    (hGrows : grows i = false)
    (hFlag : s.shutdown = false) :
    ∃ s',
      (system workerCount spawn grows).Leads s s' ∧ s'.Stuck := by
  rcases starts grows hAt hMore hSpawn with
    ⟨s₁, hLeads, hAdding, hStarted, hSame, hThread⟩
  have hRun :
      s₁.runThread s.started =
        some
          (s₁.moveThread s.started
            { s₁.threads s.started with
              refCount := 1, phase := .loop } s₁.mutex) := by
    rw [PoolConstruction.runThread, if_pos hStarted, hThread]
    rfl
  have hAdd :
      (s₁.moveThread s.started
        { s₁.threads s.started with
          refCount := 1, phase := .loop } s₁.mutex).construct
          workerCount spawn grows =
        some
          { s₁.moveThread s.started
              { s₁.threads s.started with
                refCount := 1, phase := .loop } s₁.mutex with
            phase := .releasing i s.started } := by
    unfold construct
    have hPhase :
        (s₁.moveThread s.started
          { s₁.threads s.started with
            refCount := 1, phase := .loop } s₁.mutex).phase =
          .adding i s.started := hAdding
    rw [hPhase]
    dsimp only
    rw [if_neg (by rw [hGrows]; exact Bool.false_ne_true)]
  refine
    ⟨_, hLeads.trans
      (.trans (.single (l := .thread s.started) hRun)
        (.trans (.single (l := .construct) hAdd)
          (.single (l := .construct) rfl))), ?_, ?_⟩
  · refine ⟨s.started, .spawning (i + 1), ?_, ?_, ?_, ?_, ?_⟩
    all_goals
      simp [releaseThread, moveThread, setThread, release,
        hThread, StartedThread.new]
  · change s₁.shutdown = false
    rw [hSame, hFlag]

end PoolConstruction

end KDoth

------------------------------------------------------------
-- Main Result
------------------------------------------------------------

namespace KDoth

namespace PoolConstruction

open StartedThread

variable {workerCount : Nat}
variable {spawn : Nat → SpawnAnswer}
variable {grows : Nat → Bool}
variable {s s' : PoolConstruction}

/- The memory is freed in the last step of a failure. -/
theorem freed_of_construct
    (hStep : s.construct workerCount spawn grows = some s') :
    s'.freed = s.freed ∨ s'.phase = .failed := by
  unfold construct at hStep
  cases hAt : s.phase with
  | spawning i =>
      simp only [hAt] at hStep
      by_cases hMore : i < workerCount
      · rw [if_pos hMore] at hStep
        cases hSpawn : spawn i <;> rw [hSpawn] at hStep <;>
          cases hStep <;> exact .inl rfl
      · rw [if_neg hMore] at hStep
        cases hStep
        exact .inl rfl
  | adding i k
  | entering =>
      simp only [hAt] at hStep
      split at hStep <;> cases hStep <;> exact .inl rfl
  | joining k resume =>
      simp only [hAt] at hStep
      rcases Option.map_eq_some_iff.mp hStep with ⟨t, _, rfl⟩
      exact .inl rfl
  | iterating j =>
      simp only [hAt] at hStep
      cases hWorker : s.workers[j]? with
      | some k =>
          rw [hWorker] at hStep
          rcases Option.map_eq_some_iff.mp hStep with ⟨t, _, rfl⟩
          exact .inl rfl
      | none =>
          rw [hWorker] at hStep
          cases hStep
          exact .inl rfl
  | clearing j =>
      simp only [hAt] at hStep
      split at hStep <;> cases hStep <;> exact .inl rfl
  | freeing =>
      simp only [hAt, Option.some.injEq] at hStep
      subst hStep
      exact .inr rfl
  | succeeded => simp [hAt] at hStep
  | failed => simp [hAt] at hStep
  | _ =>
      simp only [hAt, Option.some.injEq] at hStep
      subst hStep
      exact .inl rfl

theorem freed_of_reachable
    (hReach : (system workerCount spawn grows).Reachable s) :
    s.freed = true → s.phase = .failed := by
  apply hReach.invariant
  · intro s hInit hFreed
    rw [hInit] at hFreed
    cases hFreed
  · intro s l s' hInv hStep hFreed
    cases l with
    | construct =>
        have hNext :
            s.construct workerCount spawn grows = some s' :=
          hStep
        rcases freed_of_construct hNext with hSame | hFailed
        · rw [hSame] at hFreed
          unfold construct at hNext
          rw [hInv hFreed] at hNext
          cases hNext
        · exact hFailed
    | thread k =>
        have hRun : s.runThread k = some s' := hStep
        unfold PoolConstruction.runThread at hRun
        split at hRun
        case isTrue =>
          rcases Option.map_eq_some_iff.mp hRun with ⟨p, _, rfl⟩
          exact hInv hFreed
        case isFalse => cases hRun
    | spurious k =>
        have hWake : step workerCount spawn grows s
            (.spurious k) = some s' := hStep
        unfold step at hWake
        dsimp only at hWake
        split at hWake
        case isTrue =>
          cases hWake
          exact hInv hFreed
        case isFalse => cases hWake

/- The loop gets to an iteration if all before it are good. -/
theorem reaches_spawning
    {i : Nat}
    (hMost : i < workerCount)
    (hBefore : ∀ j < i, spawn j = .created → grows j = true) :
    ∃ s,
      (system workerCount spawn grows).Reachable s ∧
        s.phase = .spawning i ∧ s.shutdown = false := by
  induction i with
  | zero =>
      refine ⟨new workerCount, .init rfl, ?_, rfl⟩
      exact if_neg (by omega)
  | succ i ih =>
      rcases ih (Nat.lt_of_succ_lt hMost)
          (fun j hj => hBefore j (Nat.lt_succ_of_lt hj)) with
        ⟨s, hReach, hAt, hFlag⟩
      rcases iterate grows hAt (Nat.lt_of_succ_lt hMost)
          (hBefore i (Nat.lt_succ_self i)) with
        ⟨s', hLeads, hAt', hSame⟩
      exact
        ⟨s', hReach.leads hLeads, hAt', by rw [hSame, hFlag]⟩

/- From there the constructor does not return. -/
theorem Stuck.not_cleansUp
    (hStuck : s.Stuck)
    (hReach :
      (system workerCount spawn grows).Reachable s) :
    ¬ CleansUp workerCount spawn grows := by
  intro hCleans
  rcases (hCleans s hReach).1 with
    ⟨s', ⟨ls, hExec⟩, hReturned⟩
  have hStill : s'.Stuck :=
    TransitionSystem.exec_invariant Stuck
      (fun s l s' hStuck hStep => hStuck.next hStep) hStuck hExec
  exact hStill.not_returned hReturned

/-
  For every worker count and all answers of `KThreadNew` and
  of the array, whatever the order of steps: the construction
  cleans up exactly if the array takes every thread that was
  started.
-/
theorem cleansUp_iff :
    CleansUp workerCount spawn grows ↔
      ∀ i < workerCount, spawn i = .created → grows i = true := by
  constructor
  · intro hCleans
    by_contra hNot
    have hBad :
        ∃ i,
          i < workerCount ∧ spawn i = .created ∧
            grows i = false := by
      simpa using hNot
    -- The first such thread is the one that is waited for.
    rcases Nat.find_spec hBad with ⟨hMore, hSpawn, hGrows⟩
    have hBefore :
        ∀ j < Nat.find hBad,
          spawn j = .created → grows j = true := by
      intro j hj hCreated
      by_contra hRefused
      apply Nat.find_min hBad hj
      exact ⟨by omega, hCreated, by simpa using hRefused⟩
    rcases reaches_spawning hMore hBefore with
      ⟨s, hReach, hAt, hFlag⟩
    rcases sticks spawn grows hAt hMore hSpawn hGrows hFlag with
      ⟨s₁, hLeads, hStuck⟩
    exact hStuck.not_cleansUp (hReach.leads hLeads) hCleans
  · intro hGrown s hReach
    have hArranged := Arranged.of_reachable hGrown hReach
    have hFailed : s.phase = .failed → s.AllJoined := by
      intro hAt k hk
      have hStage := hArranged.orderly.stage
      unfold Stage at hStage
      rw [hAt] at hStage
      exact ⟨(hStage k hk).ended, (hStage k hk).joined⟩
    refine ⟨?_, hFailed, ?_⟩
    · rcases TransitionSystem.leads_of_progress
          (rank workerCount)
          (fun s hArranged =>
            Arranged.progress hGrown hArranged) hArranged with
        ⟨s', hLeads, _, hReturned⟩
      exact ⟨s', hLeads, hReturned⟩
    · intro hFreed
      exact hFailed (freed_of_reachable hReach hFreed)

/- One worker, whose thread is started and not recorded. -/
theorem cleansUp_fails :
    ¬ CleansUp 1 (fun _ => .created) (fun _ => false) := by
  have hReach :
      (system 1 (fun _ => .created) (fun _ => false)).Reachable
        (new 1) := .init rfl
  have hMore : 0 < 1 := Nat.one_pos
  rcases sticks (s := new 1) (fun _ => .created)
      (fun _ => false) rfl hMore rfl rfl rfl with
    ⟨s, hLeads, hStuck⟩
  exact hStuck.not_cleansUp (hReach.leads hLeads)

end PoolConstruction

end KDoth
