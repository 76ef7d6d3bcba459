import Mathlib.Algebra.BigOperators.Fin
import Mathlib.Algebra.Order.BigOperators.Group.Finset
import KDoth.Threads.Dispatch
import KDoth.Threads.Joining

/-
  What a shutdown leaves in the list. Once the flag is set
  each worker takes a bounded number of tasks, so that all
  accepted tasks are executed when the list is never longer
  than what the workers can still take.

  Key definitions include:
    * `Worker.capacity`
    * `KWorkerPool.capacity`
    * `KWorkerPool.Drains`
    * `KWorkerPool.Drained`

  Key theorems include:
    * `KWorkerPool.capacity_of_next`
    * `KWorkerPool.Drained.next`
    * `KWorkerPool.Overcommitted.next`
    * `KWorkerPool.shutdown_executes`
    * `KWorkerPool.shutdown_strands`
-/

------------------------------------------------------------
-- Capacity
------------------------------------------------------------

namespace KDoth

namespace Worker

/- The tasks a worker can still take once the flag is set. -/
def capacity (v : Worker) : Nat :=
  match v.phase with
  | .loop => 1
  | .entered => 1
  | .waiting => 1 + v.isRunning.toNat
  | .awake => 1 + v.isRunning.toNat
  | .reentered => 1 + v.isRunning.toNat
  | .ended => 0
  | _ => v.isRunning.toNat

end Worker

namespace KWorkerPool

variable {W : Nat}
variable {s : KWorkerPool W}
variable {l : PoolStep W}

def capacity (s : KWorkerPool W) : Nat :=
  ∑ w, (s.workers w).capacity

/- At most one worker is in a critical section. -/
theorem Checks.unique
    {v w : Fin W}
    {a b : Bool}
    (hFirst : s.Checks l v a)
    (hSecond : s.Checks l w b) :
    v = w := by
  rcases hFirst with ⟨rfl, _⟩ | ⟨rfl, _⟩ <;>
    rcases hSecond with ⟨hEq, _⟩ | ⟨hEq, _⟩ <;>
    cases hEq <;> rfl

/- Who takes a task has used up one unit of capacity. -/
theorem capacity_of_checks
    (hFlag : s.shutdown = true)
    {w : Fin W}
    {isRunning : Bool}
    {t : Nat}
    {rest : List Nat}
    (hChecks : s.Checks l w isRunning)
    (hTasks : s.tasks = t :: rest) :
    ((s.next l).workers w).capacity + 1 =
      (s.workers w).capacity := by
  have hPhaseEq : s.phase w = (s.workers w).phase := rfl
  rw [(takes_of_checks hChecks hTasks).2.2]
  rcases hChecks with ⟨_, hPhase, hRun⟩ | ⟨_, hPhase, hRun⟩
  · rw [hPhaseEq] at hPhase
    simp [Worker.capacity, hPhase, hRun, hFlag]
  · rw [hPhaseEq] at hPhase
    simp [Worker.capacity, hPhase, hRun, Nat.add_comm]

/- Other workers keep their capacity. -/
theorem capacity_of_not_checks
    (hEnabled : s.Enabled l)
    {w : Fin W}
    (hNot : ∀ isRunning, ¬ s.Checks l w isRunning) :
    ((s.next l).workers w).capacity =
      (s.workers w).capacity := by
  have hPhaseEq : s.phase w = (s.workers w).phase := rfl
  cases worker_of_next hEnabled w with
  | same hSame => rw [hSame]
  | advances hStep hAfter =>
      rw [hAfter]
      cases hStep with
      | waits hChecks _ _
      | leaves hChecks _ _
      | takes hChecks _ =>
          exact absurd hChecks (hNot _)
      | woken hPhase
      | lock hPhase
      | relock hPhase
      | starts hPhase
      | finishes hPhase
      | releasesUserData hPhase =>
          rw [hPhaseEq] at hPhase
          simp [Worker.capacity, hPhase]
      | releasesTask hPhase =>
          rw [hPhaseEq] at hPhase
          cases hRun : (s.workers w).isRunning <;>
            simp [Worker.capacity, hPhase, hRun]

/-
  With the flag set a step finds the list empty, uses one
  unit of capacity for a task or keeps the capacity.
-/
theorem capacity_of_next
    (hEnabled : s.Enabled l)
    (hFlag : s.shutdown = true) :
    s.tasks = [] ∨
      (∃ w isRunning,
        s.Checks l w isRunning ∧
          (s.next l).capacity + 1 = s.capacity) ∨
      ((∀ w isRunning, ¬ s.Checks l w isRunning) ∧
        (s.next l).capacity = s.capacity) := by
  by_cases hTaker : ∃ w isRunning, s.Checks l w isRunning
  · rcases hTaker with ⟨w, isRunning, hChecks⟩
    cases hTasks : s.tasks with
    | nil => exact .inl rfl
    | cons t rest =>
        right
        left
        refine ⟨w, isRunning, hChecks, ?_⟩
        have hUsed := capacity_of_checks hFlag hChecks hTasks
        have hOthers :
            ∀ v ∈ Finset.univ.erase w,
              ((s.next l).workers v).capacity =
                (s.workers v).capacity := by
          intro v hv
          apply capacity_of_not_checks hEnabled
          intro r hOther
          exact
            Finset.ne_of_mem_erase hv (hOther.unique hChecks)
        unfold capacity
        rw [← Finset.add_sum_erase _ _ (Finset.mem_univ w),
          ← Finset.add_sum_erase Finset.univ
            (fun v => (s.workers v).capacity)
            (Finset.mem_univ w),
          Finset.sum_congr rfl hOthers]
        omega
  · right
    right
    have hNone : ∀ w r, ¬ s.Checks l w r := fun w r hChecks =>
      hTaker ⟨w, r, hChecks⟩
    refine ⟨hNone, ?_⟩
    apply Finset.sum_congr rfl
    intro w _
    exact capacity_of_not_checks hEnabled (hNone w)

end KWorkerPool

end KDoth

------------------------------------------------------------
-- Draining
------------------------------------------------------------

namespace KDoth

namespace ShutdownPhase

/- The flag has been set by the call. -/
def Past : ShutdownPhase → Prop
| notifying => True
| joining _ _ => True
| returned => True
| _ => False

end ShutdownPhase

namespace KWorkerPool

variable {W : Nat}
variable {s : KWorkerPool W}
variable {l : PoolStep W}

/-
  The workers have room for the list when the flag is set and
  for each task appended later, and every join waits for its
  worker to end.
-/
def Drains (s : KWorkerPool W) : PoolStep W → Prop
| .shutdownSetFlag _ => s.tasks.length ≤ s.capacity
| .postAppend _ =>
    s.shutdown = true → s.tasks.length < s.capacity
| .shutdownJoin _ w => s.phase w = .ended
| _ => True

instance
    (s : KWorkerPool W)
    (l : PoolStep W) :
    Decidable (s.Drains l) := by
  apply l.casesOn (motive := fun l => Decidable (s.Drains l)) <;>
    intros <;> unfold Drains <;> infer_instance

/- The list fits, and a shutdown is past ended workers only. -/
structure Drained (s : KWorkerPool W) : Prop where
  room : s.shutdown = true → s.tasks.length ≤ s.capacity
  flagged : ∀ c, (s.calls c).phase.Past → s.shutdown = true
  joined : ∀ w, s.joined w = true → s.phase w = .ended
  cleared : s.cleared = true → ∀ w, s.phase w = .ended
  waited : ∀ c, s.Waited (fun w => s.phase w = .ended) c
  dropped : s.dropped = []

/- A call that is past the flag was so or sets it. -/
theorem past_of_next
    (hEnabled : s.Enabled l)
    {c : Nat}
    (hPast : ((s.next l).calls c).phase.Past) :
    (s.calls c).phase.Past ∨ l = .shutdownSetFlag c := by
  cases call_of_next hEnabled c with
  | same hSame =>
      rw [hSame] at hPast
      exact .inl hPast
  | begins _ hPhase _ _ =>
      rw [hPhase] at hPast
      exact hPast.elim
  | advances hStep hAfter =>
      rw [hAfter] at hPast
      cases hStep with
      | lock => exact hPast.elim
      | setFlag => exact .inr rfl
      | notifyAll =>
          have hNotifying :
              (s.calls c).phase = .notifying := hEnabled
          rw [hNotifying]
          exact .inl trivial
      | join hPhase _ _ =>
          rw [hPhase]
          exact .inl trivial
      | clear hPhase =>
          rw [hPhase]
          exact .inl trivial

/- The flag is set once a call is past it. -/
theorem flagged_next
    (hEnabled : s.Enabled l)
    (hFlagged :
      ∀ c, (s.calls c).phase.Past → s.shutdown = true)
    (c : Nat)
    (hPast : ((s.next l).calls c).phase.Past) :
    (s.next l).shutdown = true := by
  rcases past_of_next hEnabled hPast with hBefore | rfl
  · exact shutdown_next (hFlagged c hBefore)
  · rfl

/- No worker is left to take a task. -/
theorem capacity_of_ended
    (hEnded : ∀ w, s.phase w = .ended) :
    s.capacity = 0 := by
  apply Finset.sum_eq_zero
  intro w _
  have hPhase : (s.workers w).phase = .ended := hEnded w
  simp [Worker.capacity, hPhase]

/- The list and the capacity shrink together. -/
theorem room_of_next
    (hEnabled : s.Enabled l)
    (hDrains : s.Drains l)
    (hRoom :
      s.shutdown = true → s.tasks.length ≤ s.capacity)
    (hFlag' : (s.next l).shutdown = true) :
    (s.next l).tasks.length ≤ (s.next l).capacity := by
  rcases shutdown_of_next (s := s) (l := l) with
    hSame | ⟨c, rfl, _⟩
  · rw [hSame] at hFlag'
    have hBefore := hRoom hFlag'
    have hCapacity := capacity_of_next hEnabled hFlag'
    cases queue_of_next (s := s) (l := l) with
    | same _ _ hTasks _ _ _ =>
        rw [hTasks]
        rcases hCapacity with
          hEmpty | ⟨w, r, hChecks, _⟩ | ⟨_, hEq⟩
        · simp [hEmpty]
        · cases hHead : s.tasks with
          | nil => simp
          | cons t rest =>
              rw [(takes_of_checks hChecks hHead).1, hHead]
                at hTasks
              simp at hTasks
        · omega
    | @appends t hStep hTasks _ _ _ =>
        subst hStep
        have hLess : s.tasks.length < s.capacity :=
          hDrains hFlag'
        have hEq :
            (s.next (.postAppend t)).capacity = s.capacity := rfl
        rw [hTasks, hEq, List.length_append, List.length_singleton]
        exact hLess
    | takes _ hHead hTasks _ _ _ _ =>
        rw [hTasks]
        rw [hHead, List.length_cons] at hBefore
        rcases hCapacity with
          hEmpty | ⟨w, r, _, hUsed⟩ | ⟨_, hEq⟩
        · rw [hHead] at hEmpty
          cases hEmpty
        · omega
        · omega
    | destroys _ hTasks _ _ _ =>
        rw [hTasks]
        exact Nat.zero_le _
  · exact hDrains

/- Nothing is in the list when no worker is left. -/
theorem Drained.tasks_nil
    (hDrained : s.Drained)
    {c : Nat}
    (hReturned : (s.calls c).phase = .returned) :
    s.tasks = [] := by
  have hFlag : s.shutdown = true := by
    apply hDrained.flagged c
    rw [hReturned]
    trivial
  have hRoom := hDrained.room hFlag
  rw [capacity_of_ended ((hDrained.waited c).returned hReturned)]
    at hRoom
  exact List.length_eq_zero_iff.mp (Nat.le_zero.mp hRoom)

theorem Drained.next
    (hDrained : s.Drained)
    (hEnabled : s.Enabled l)
    (hDrains : s.Drains l) :
    (s.next l).Drained := by
  have hEnds :
      (∀ w, s.phase w = .ended) →
        ∀ w, (s.next l).phase w = .ended := fun hAll w =>
    ended_of_next hEnabled (hAll w)
  constructor
  · exact room_of_next hEnabled hDrains hDrained.room
  · exact flagged_next hEnabled hDrained.flagged
  · intro w hJoined
    rcases joined_of_next hJoined with hBefore | ⟨c, rfl⟩
    · exact ended_of_next hEnabled (hDrained.joined w hBefore)
    · exact ended_of_next hEnabled hDrains
  · intro hCleared
    rcases cleared_of_next (s := s) (l := l) with
      hSame | ⟨c, rfl, _⟩
    · rw [hSame] at hCleared
      exact hEnds (hDrained.cleared hCleared)
    · rcases hEnabled with ⟨n, _, hPhase⟩
      exact hEnds ((hDrained.waited c).all_out hPhase)
  · intro c
    apply (hDrained.waited c).next hEnabled
    · exact fun w hEnded => ended_of_next hEnabled hEnded
    · exact hDrained.cleared
    · rintro w rfl
      exact hDrains
  · cases queue_of_next (s := s) (l := l) with
    | same _ _ _ _ _ hDropped =>
        rw [hDropped]
        exact hDrained.dropped
    | appends _ _ _ _ hDropped =>
        rw [hDropped]
        exact hDrained.dropped
    | takes _ _ _ _ _ _ hDropped =>
        rw [hDropped]
        exact hDrained.dropped
    | destroys hStep _ _ _ hDropped =>
        subst hStep
        rcases hEnabled with ⟨_, c, _, _, hReturned⟩
        rw [hDropped]
        exact hDrained.tasks_nil hReturned

theorem Drained.new : (new W).Drained := by
  constructor
  · intro hFlag
    cases hFlag
  · intro c hPast
    exact hPast.elim
  · intro w hJoined
    cases hJoined
  · intro hCleared
    cases hCleared
  · intro c
    constructor
    · intro i n hJoining
      cases hJoining
    · intro hReturned
      cases hReturned
  · rfl

end KWorkerPool

end KDoth

------------------------------------------------------------
-- Overcommitted Workers
------------------------------------------------------------

namespace KDoth

namespace KWorkerPool

variable {W : Nat}
variable {s : KWorkerPool W}
variable {l : PoolStep W}

/- The flag is set and the list is longer than the room. -/
def Overcommitted (s : KWorkerPool W) : Prop :=
  s.shutdown = true ∧ s.capacity < s.tasks.length

/- Only the destruction of the list gets rid of the excess. -/
theorem Overcommitted.next
    (hOver : s.Overcommitted)
    (hEnabled : s.Enabled l)
    (hOther : l ≠ .destroy) :
    (s.next l).Overcommitted := by
  rcases hOver with ⟨hFlag, hOver⟩
  refine ⟨shutdown_next hFlag, ?_⟩
  have hTasks : s.tasks ≠ [] := by
    intro hEmpty
    rw [hEmpty] at hOver
    exact absurd hOver (Nat.not_lt_zero _)
  have hCapacity := capacity_of_next hEnabled hFlag
  cases queue_of_next (s := s) (l := l) with
  | same _ _ hSame _ _ _ =>
      rw [hSame]
      rcases hCapacity with
        hEmpty | ⟨w, r, _, hUsed⟩ | ⟨_, hEq⟩
      · exact absurd hEmpty hTasks
      · omega
      · omega
  | @appends t hStep hNew _ _ _ =>
      subst hStep
      have hEq :
          (s.next (.postAppend t)).capacity = s.capacity := rfl
      rw [hNew, hEq, List.length_append]
      omega
  | takes hStep hHead hRest _ _ _ _ =>
      rw [hHead, List.length_cons] at hOver
      rw [hRest]
      rcases hCapacity with
        hEmpty | ⟨w, r, _, hUsed⟩ | ⟨hNone, _⟩
      · exact absurd hEmpty hTasks
      · omega
      · rcases checks_of_step hEnabled hStep with ⟨r, hChecks⟩
        exact absurd hChecks (hNone _ r)
  | destroys hStep _ _ _ _ => exact absurd hStep hOther

/-
  Once the list is longer than the room, every later state up
  to the destruction of the list has a task that was accepted,
  is in the list and is not executed.
-/
theorem overcommitted_strands
    {s₀ : KWorkerPool W}
    (hReach : (workerPool W).Reachable s₀)
    (hOver : s₀.Overcommitted)
    (hLater :
      { workerPool W with
        Init := fun s => s = s₀ }.ReachableWhere
          (fun _ l => l ≠ PoolStep.destroy) s) :
    ∃ t ∈ s.tasks, t ∈ s.accepted ∧ t ∉ s.executed := by
  have hBoth : s.Placed ∧ s.Overcommitted := by
    apply hLater.invariant
    · intro s hInit
      have hSame : s = s₀ := hInit
      rw [hSame]
      exact ⟨.of_reachable hReach, hOver⟩
    · intro s l s' hBoth hOther hStep
      rcases step_inv hStep with ⟨hEnabled, rfl⟩
      exact
        ⟨hBoth.1.next hEnabled, hBoth.2.next hEnabled hOther⟩
  rcases hBoth with ⟨hPlaced, _, hLong⟩
  cases hTasks : s.tasks with
  | nil =>
      rw [hTasks] at hLong
      exact absurd hLong (Nat.not_lt_zero _)
  | cons t rest =>
      have hMem : t ∈ s.tasks := by
        rw [hTasks]
        exact List.mem_cons_self
      refine
        ⟨t, List.mem_cons_self,
          hPlaced.queued.mem_accepted hMem, ?_⟩
      intro hExecuted
      rcases hPlaced.dispatched.executed t hExecuted with
        ⟨w, hPair⟩
      exact
        hPlaced.queued.not_dequeued (.inl hMem) w hPair

end KWorkerPool

end KDoth

------------------------------------------------------------
-- Main Result
------------------------------------------------------------

namespace KDoth

namespace KWorkerPool

variable {W : Nat}
variable {s : KWorkerPool W}
variable {l : PoolStep W}

/-
  In every run whose steps leave the workers room for the
  list, a shutdown that has returned leaves no task in the
  list, and every task whose post has returned, with true, was
  executed.
-/
theorem shutdown_executes
    (hReach :
      (workerPool W).ReachableWhere
        (fun s l => s.Drains l) s)
    {c : Nat}
    (hReturned : (s.calls c).phase = .returned) :
    s.tasks = [] ∧
      ∀ t, s.posts t = .returned → t ∈ s.executed := by
  have hPlaced := Placed.of_reachable hReach
  have hDrained : s.Drained := by
    apply hReach.invariant
    · intro s hInit
      rw [hInit]
      exact .new
    · intro s l s' hDrained hDrains hStep
      rcases step_inv hStep with ⟨hEnabled, rfl⟩
      exact hDrained.next hEnabled hDrains
  have hEmpty := hDrained.tasks_nil hReturned
  refine ⟨hEmpty, ?_⟩
  intro t hPosted
  have hAccepted : t ∈ s.accepted :=
    (hPlaced.queued.posts t).mpr (.inr (.inr hPosted))
  rw [hPlaced.queued.order, hEmpty, hDrained.dropped,
    List.append_nil, List.append_nil] at hAccepted
  rcases List.mem_map.mp hAccepted with ⟨⟨u, w⟩, hPair, hEq⟩
  have hSame : u = t := hEq
  subst hSame
  rcases hPlaced.dispatched.pending w u hPair with
    hExecuted | hPending
  · exact hExecuted
  · rw [(hDrained.waited c).returned hReturned w] at hPending
    cases hPending

/- A task posted before the shutdown of an idle worker. -/
theorem shutdown_executes_post :
    ∃ s,
      (workerPool 1).exec (new 1)
          [.postBegin none, .postLock 0, .postAppend 0,
            .postReleaseTask 0, .postNotify 0 (fun _ => false),
            .shutdownBegin none, .shutdownLock 0,
            .shutdownSetFlag 0, .shutdownNotifyAll 0,
            .workerLock 0, .workerEnter 0, .workerStart 0 0,
            .workerFinish 0 0, .workerReleaseUserData 0 0,
            .workerReleaseTask 0 0, .shutdownJoin 0 0,
            .shutdownClear 0] = some s ∧
        0 ∈ s.executed := by
  have hMeets :
      (workerPool 1).ExecMeets (fun s l => s.Drains l) (new 1)
        [.postBegin none, .postLock 0, .postAppend 0,
          .postReleaseTask 0, .postNotify 0 (fun _ => false),
          .shutdownBegin none, .shutdownLock 0,
          .shutdownSetFlag 0, .shutdownNotifyAll 0,
          .workerLock 0, .workerEnter 0, .workerStart 0 0,
          .workerFinish 0 0, .workerReleaseUserData 0 0,
          .workerReleaseTask 0 0, .shutdownJoin 0 0,
          .shutdownClear 0] := by
    decide
  have hReach :=
    TransitionSystem.reachableWhere_of_exec
      (.init rfl) hMeets rfl
  exact
    ⟨_, rfl, (shutdown_executes (c := 0) hReach rfl).2 0 rfl⟩

/-
  Two tasks posted before the shutdown of an idle worker: the
  second stays in the list when the shutdown returns, and is
  dropped with it.
-/
theorem shutdown_strands :
    ∃ s,
      (workerPool 1).Reachable s ∧
        (s.calls 0).phase = .returned ∧
          s.posts 1 = .returned ∧ s.tasks = [1] ∧
            1 ∉ s.executed := by
  have hExec :
      (workerPool 1).exec (new 1)
          [.postBegin none, .postLock 0, .postAppend 0,
            .postReleaseTask 0, .postNotify 0 (fun _ => false),
            .postBegin none, .postLock 1, .postAppend 1,
            .postReleaseTask 1, .postNotify 1 (fun _ => false),
            .shutdownBegin none, .shutdownLock 0,
            .shutdownSetFlag 0, .shutdownNotifyAll 0,
            .workerLock 0, .workerEnter 0, .workerStart 0 0,
            .workerFinish 0 0, .workerReleaseUserData 0 0,
            .workerReleaseTask 0 0, .shutdownJoin 0 0,
            .shutdownClear 0] = some _ := rfl
  have hReach : (workerPool 1).Reachable _ :=
    TransitionSystem.reachable_of_exec rfl hExec
  exact ⟨_, hReach, rfl, rfl, rfl, by decide⟩

end KWorkerPool

end KDoth
