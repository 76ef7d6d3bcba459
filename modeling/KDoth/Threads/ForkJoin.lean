import KDoth.Threads.LatchSections
import KDoth.Threads.Regularity

/-
  A latch and a worker pool used together, as the tests of
  the library do: a client posts tasks that count down a
  latch, which is the user data of each, and waits for it.
  Other threads may use the pool as they like.

  Key definitions include:
    * `ForkJoin`
    * `ForkJoinStep`
    * `ForkJoin.Turn`
    * `ForkJoin.next`
    * `forkJoin`
    * `ForkJoin.Joins`

  Key theorems include:
    * `ForkJoin.pool_reachable`
    * `ForkJoin.gate_of_reachable`
    * `ForkJoin.Joins.next`
    * `ForkJoin.joined_after_all`
-/

------------------------------------------------------------
-- State
------------------------------------------------------------

namespace KDoth

/- Where the client is. -/
inductive ForkJoinPhase where
  | forking
  | joining
  | joined
deriving DecidableEq

/-
  The client with the latch and the pool. The calls on the
  latch are those of the client, which is `none`, and of the
  workers. A procedure knows whether it has called the latch.
  The tasks of the client, in the order in which it posted
  them, and those that have counted down are recorded.
-/
structure ForkJoin (W : Nat) where
  client : ForkJoinPhase
  latch : KCountdownLatch (Option (Fin W))
  pool : KWorkerPool W
  called : Fin W → Bool
  forked : List Nat
  counted : List Nat

/-
  The client posts a task, or waits; the procedure of one of
  its tasks counts down; or there is any other step of the
  pool, of its workers or of other threads.
-/
inductive ForkJoinStep (W : Nat) where
  | fork
  | wait
  | recheck
  | spurious
  | waitReturn
  | countDown (w : Fin W) (t : Nat)
  | notifyAll (w : Fin W)
  | countDownReturn (w : Fin W)
  | pool (l : PoolStep W)

namespace ForkJoin

/- The latch, as the user data of the tasks. -/
def latchData : UserData :=
  .object 0

end ForkJoin

namespace ForkJoinStep

variable {W : Nat}

/- What the step is for the pool. -/
def poolStep : ForkJoinStep W → Option (PoolStep W)
| .fork => some (.postBegin (some ForkJoin.latchData))
| .pool l => some l
| _ => none

/- What the step is for the latch. -/
def latchStep :
    ForkJoinStep W → Option (LatchStep (Option (Fin W)))
| .wait => some (.wait none)
| .recheck => some (.recheck none)
| .spurious => some (.spurious none)
| .waitReturn => some (.waitReturn none)
| .countDown w _ => some (.countDown (some w))
| .notifyAll w => some (.notifyAll (some w))
| .countDownReturn w => some (.countDownReturn (some w))
| _ => none

end ForkJoinStep

/- The procedure that returns, with the worker it ran on. -/
def PoolStep.finished
    {W : Nat} : PoolStep W → Option (Fin W × Nat)
| .workerFinish w t => some (w, t)
| _ => none

end KDoth

------------------------------------------------------------
-- Steps
------------------------------------------------------------

namespace KDoth

namespace ForkJoin

variable {W : Nat}

/- No post of the client is under way. -/
def Posted (s : ForkJoin W) : Prop :=
  ∀ t ∈ s.forked, s.pool.posts t = .returned

/- The procedure of a task of the client counts down once. -/
def Ran (s : ForkJoin W) (l : PoolStep W) : Prop :=
  ∀ p ∈ l.finished,
    p.2 ∈ s.forked →
      s.called p.1 = true ∧
        s.latch.phase (some p.1) = .outside

/-
  The order in which the client and the procedures of its
  tasks go on. The latch is made with the count `n`.
-/
def Turn
    (n : UInt64)
    (s : ForkJoin W) : ForkJoinStep W → Prop
| .fork =>
    s.client = .forking ∧ s.forked.length < n.toNat ∧ s.Posted
| .wait =>
    s.client = .forking ∧ s.forked.length = n.toNat ∧ s.Posted
| .recheck => s.client = .joining
| .spurious => s.client = .joining
| .waitReturn => s.client = .joining
| .countDown w t =>
    s.pool.phase w = .running t ∧
      t ∈ s.forked ∧ s.called w = false
| .pool l => s.Ran l
| _ => True

instance (s : ForkJoin W) : Decidable s.Posted := by
  unfold Posted
  infer_instance

instance
    (s : ForkJoin W)
    (l : PoolStep W) :
    Decidable (s.Ran l) := by
  unfold Ran
  infer_instance

instance
    (n : UInt64)
    (s : ForkJoin W)
    (l : ForkJoinStep W) :
    Decidable (s.Turn n l) := by
  cases l <;> unfold Turn <;> infer_instance

/- The pool and the latch can take the step. -/
def Takes (s : ForkJoin W) (l : ForkJoinStep W) : Bool :=
  (l.poolStep.all fun k => decide (s.pool.Enabled k)) &&
    l.latchStep.all fun k => decide (s.latch.Enabled k)

def next (s : ForkJoin W) (l : ForkJoinStep W) :
    ForkJoin W where
  client :=
    match l with
    | .wait => .joining
    | .waitReturn => .joined
    | _ => s.client
  latch :=
    match l.latchStep with
    | none => s.latch
    | some k => s.latch.next k
  pool :=
    match l.poolStep with
    | none => s.pool
    | some k => s.pool.next k
  called :=
    match l with
    | .countDown w _ => Function.update s.called w true
    | .pool (.workerStart w _) =>
        Function.update s.called w false
    | _ => s.called
  forked :=
    match l with
    | .fork => s.forked ++ [s.pool.nextTask]
    | _ => s.forked
  counted :=
    match l with
    | .countDown _ t => s.counted ++ [t]
    | _ => s.counted

/- A new latch and a new pool. -/
def new
    (W : Nat)
    (latch : KCountdownLatch (Option (Fin W))) :
    ForkJoin W where
  client := .forking
  latch := latch
  pool := KWorkerPool.new W
  called := fun _ => false
  forked := []
  counted := []

end ForkJoin

/- The client with a latch of a count and so many workers. -/
def forkJoin
    (W : Nat)
    (n : UInt64) :
    TransitionSystem (ForkJoin W) (ForkJoinStep W) where
  Init s :=
    ∃ latch,
      KCountdownLatch.new n = some latch ∧ s = .new W latch
  step s l :=
    if s.Turn n l ∧ s.Takes l = true then some (s.next l)
    else none

end KDoth

------------------------------------------------------------
-- The Latch And The Pool
------------------------------------------------------------

namespace KDoth

namespace ForkJoin

variable {W : Nat} {n : UInt64}
variable {s s' : ForkJoin W} {l : ForkJoinStep W}

/- What makes a step one of the system. -/
theorem step_inv
    (hStep : (forkJoin W n).step s l = some s') :
    s.Turn n l ∧
      (∀ k, l.poolStep = some k → s.pool.Enabled k) ∧
        (∀ k, l.latchStep = some k → s.latch.Enabled k) ∧
          s' = s.next l := by
  simp only [forkJoin] at hStep
  split at hStep
  next hBoth =>
    rcases hBoth with ⟨hTurn, hTakes⟩
    cases hStep
    simp only [Takes, Bool.and_eq_true] at hTakes
    refine ⟨hTurn, ?_, ?_, rfl⟩
    · intro k hPool
      rw [hPool] at hTakes
      exact of_decide_eq_true hTakes.1
    · intro k hLatch
      rw [hLatch] at hTakes
      exact of_decide_eq_true hTakes.2
  next => cases hStep

theorem step_of_enabled
    (hTurn : s.Turn n l)
    (hPool : ∀ k, l.poolStep = some k → s.pool.Enabled k)
    (hLatch : ∀ k, l.latchStep = some k → s.latch.Enabled k) :
    (forkJoin W n).step s l = some (s.next l) := by
  apply if_pos
  refine ⟨hTurn, ?_⟩
  unfold Takes
  cases hFirst : l.poolStep <;>
    cases hSecond : l.latchStep <;>
    simp_all

theorem next_pool
    {k : PoolStep W}
    (hPool : l.poolStep = some k) :
    (s.next l).pool = s.pool.next k := by
  simp only [next, hPool]

theorem next_pool_of_none
    (hPool : l.poolStep = none) :
    (s.next l).pool = s.pool := by
  simp only [next, hPool]

theorem next_latch
    {k : LatchStep (Option (Fin W))}
    (hLatch : l.latchStep = some k) :
    (s.next l).latch = s.latch.next k := by
  simp only [next, hLatch]

theorem next_latch_of_none
    (hLatch : l.latchStep = none) :
    (s.next l).latch = s.latch := by
  simp only [next, hLatch]

/- The pool is used like any pool. -/
theorem pool_reachable
    (hReach : (forkJoin W n).Reachable s) :
    (workerPool W).Reachable s.pool := by
  apply hReach.invariant
  · rintro s ⟨latch, _, rfl⟩
    exact .init rfl
  · intro s l s' hPool hStep
    rcases step_inv hStep with ⟨_, hEnabled, _, rfl⟩
    cases hKind : l.poolStep with
    | none =>
        rw [next_pool_of_none hKind]
        exact hPool
    | some k =>
        rw [next_pool hKind]
        exact
          .step hPool trivial (if_pos (hEnabled k hKind))

/- And the latch like any latch. -/
theorem gate_of_reachable
    (hReach : (forkJoin W n).Reachable s) :
    s.latch.Gate n.toNat := by
  apply hReach.invariant
  · rintro s ⟨latch, hNew, rfl⟩
    exact KCountdownLatch.gate_of_new hNew
  · intro s l s' hGate hStep
    rcases step_inv hStep with ⟨_, _, hEnabled, rfl⟩
    cases hKind : l.latchStep with
    | none =>
        rw [next_latch_of_none hKind]
        exact hGate
    | some k =>
        rw [next_latch hKind]
        exact hGate.next (hEnabled k hKind)

end ForkJoin

end KDoth

------------------------------------------------------------
-- Steps Of The Parts
------------------------------------------------------------

namespace KDoth

/- The thread that takes the step. -/
def LatchStep.thread
    {Thread : Type} : LatchStep Thread → Thread
| .countDown t => t
| .notifyAll t => t
| .countDownReturn t => t
| .wait t => t
| .spurious t => t
| .recheck t => t
| .waitReturn t => t

/- The other threads stay, or are woken. -/
theorem KCountdownLatch.phase_next_of_ne
    {Thread : Type}
    [DecidableEq Thread]
    {s : KCountdownLatch Thread}
    {k : LatchStep Thread}
    {u : Thread}
    (hNe : u ≠ k.thread) :
    (s.next k).phase u = s.phase u ∨
      (s.phase u = .waiting ∧ (s.next k).phase u = .awake) := by
  cases k with
  | notifyAll t =>
      have hOther : u ≠ t := hNe
      by_cases hWaits : s.phase u = .waiting
      · right
        simp [next, setPhase, wakeAll, hOther, hWaits]
      · left
        simp [next, setPhase, wakeAll, hOther, hWaits]
  | _ =>
      left
      exact Function.update_of_ne hNe ..

namespace KWorkerPool

variable {W : Nat} {s : KWorkerPool W} {l : PoolStep W}
variable {w : Fin W} {t : Nat}

/- A procedure runs until its worker finishes it. -/
theorem running_or_finish
    (hEnabled : s.Enabled l)
    (hRunning : s.phase w = .running t) :
    (s.next l).phase w = .running t ∨
      l = .workerFinish w t := by
  have hAfterPhase :
      (s.next l).phase w = ((s.next l).workers w).phase := rfl
  cases worker_of_next hEnabled w with
  | same hSame =>
      left
      rw [hAfterPhase, hSame]
      exact hRunning
  | advances hStep hAfter =>
      cases hStep with
      | finishes hPhase =>
          rw [hPhase] at hRunning
          cases hRunning
          exact .inr rfl
      | waits hChecks _ _
      | leaves hChecks _ _
      | takes hChecks _ =>
          rcases hChecks with
            ⟨_, hPhase, _⟩ | ⟨_, hPhase, _⟩ <;>
            rw [hPhase] at hRunning <;> cases hRunning
      | woken hPhase
      | lock hPhase
      | relock hPhase
      | starts hPhase
      | releasesUserData hPhase
      | releasesTask hPhase =>
          rw [hPhase] at hRunning
          cases hRunning

/- A procedure that runs did so before, or is called. -/
theorem running_of_next
    (hEnabled : s.Enabled l)
    (hRunning : (s.next l).phase w = .running t) :
    (s.phase w = .running t ∧ ∀ u, l ≠ .workerStart w u) ∨
      (s.phase w = .taken t ∧ l = .workerStart w t) := by
  have hAfterPhase :
      (s.next l).phase w = ((s.next l).workers w).phase := rfl
  cases worker_of_next hEnabled w with
  | same hSame =>
      rw [hAfterPhase, hSame] at hRunning
      refine .inl ⟨hRunning, ?_⟩
      rintro u rfl
      have hTaken : s.phase w = .taken u := hEnabled
      have hBefore : s.phase w = .running t := hRunning
      rw [hTaken] at hBefore
      cases hBefore
  | advances hStep hAfter =>
      rw [hAfterPhase, hAfter] at hRunning
      cases hStep with
      | starts hPhase =>
          cases hRunning
          exact .inr ⟨hPhase, rfl⟩
      | leaves _ _ _ =>
          dsimp only at hRunning
          split at hRunning <;> cases hRunning
      | releasesTask _ =>
          dsimp only at hRunning
          split at hRunning <;> cases hRunning
      | _ => cases hRunning

/- What was retained stays recorded. -/
theorem retained_subset
    {p : Nat × UserData}
    (hMem : p ∈ s.retained) :
    p ∈ (s.next l).retained := by
  cases l with
  | postBegin o => exact List.mem_append_left _ hMem
  | release actor =>
      rcases s.next_release actor with
        ⟨calls, n, d, hEq⟩
      rw [hEq]
      exact hMem
  | workerReleaseUserData w u =>
      rcases s.next_workerReleaseUserData w u with
        ⟨p, calls, n, d, hEq⟩
      rw [hEq]
      exact hMem
  | workerEnter w =>
      rcases s.next_workerEnter w with
        ⟨workers, tasks, d, hEq⟩
      rw [hEq]
      exact hMem
  | workerRecheck w =>
      rcases s.next_workerRecheck w with
        ⟨workers, tasks, d, hEq⟩
      rw [hEq]
      exact hMem
  | _ => exact hMem

/- A task that was dequeued was made. -/
theorem Placed.lt_of_dequeued
    (hPlaced : s.Placed)
    (hMem : (t, w) ∈ s.dequeued) :
    t < s.nextTask := by
  have hAccepted :=
    (hPlaced.queued.posts t).mp
      (hPlaced.queued.dequeued_accepted hMem)
  by_contra hNot
  have hIdle := hPlaced.fresh.posts t (by omega)
  rw [hIdle] at hAccepted
  rcases hAccepted with hBad | hBad | hBad <;> cases hBad

theorem Placed.lt_of_executed
    (hPlaced : s.Placed)
    (hMem : t ∈ s.executed) :
    t < s.nextTask := by
  rcases hPlaced.dispatched.executed t hMem with ⟨w, hDequeued⟩
  exact hPlaced.lt_of_dequeued hDequeued

/- A task that is to be executed or executes was made. -/
theorem Placed.lt_of_pending
    (hPlaced : s.Placed)
    (hPending : (s.phase w).pending = some t) :
    t < s.nextTask :=
  hPlaced.lt_of_dequeued
    (hPlaced.dispatched.holds w t (.inl hPending))

/- Two workers do not have one task. -/
theorem Placed.pending_unique
    {v : Fin W}
    (hPlaced : s.Placed)
    (hPending : (s.phase w).pending = some t)
    (hOther : (s.phase v).pending = some t) :
    v = w :=
  hPlaced.queued.worker_unique
    (hPlaced.dispatched.holds v t (.inl hOther))
    (hPlaced.dispatched.holds w t (.inl hPending))

/- A running task still has its user data. -/
theorem Settled.userData_of_running
    {o : UserData}
    (hSettled : s.Settled)
    (hRunning : s.phase w = .running t)
    (hRetained : (t, o) ∈ s.retained) :
    (s.task t).userData = some o ∧ (t, o) ∉ s.released := by
  have hPending : (s.phase w).pending = some t := by
    rw [hRunning]
    rfl
  have hPlaced := hSettled.placed
  have hNot : (t, o) ∉ s.released := by
    rw [hSettled.released.gone t o hRetained]
    rintro (hDropped | ⟨hExecuted, _⟩)
    · exact
        hPlaced.queued.not_dequeued (.inr hDropped) w
          (hPlaced.dispatched.holds w t (.inl hPending))
    · exact hPlaced.dispatched.notYet w t hPending hExecuted
  exact
    ⟨(hSettled.released.userData t o).mpr ⟨hRetained, hNot⟩,
      hNot⟩

end KWorkerPool

end KDoth

------------------------------------------------------------
-- What Is Counted
------------------------------------------------------------

namespace KDoth

namespace ForkJoin

variable {W : Nat} {n : UInt64}
variable {s : ForkJoin W} {l : ForkJoinStep W}

/-
  The tasks that have counted down are tasks of the client,
  and each did so once, while it ran: its procedure knows of
  its own call, and is not called again.
-/
structure Tallied (n : UInt64) (s : ForkJoin W) : Prop where
  most : s.forked.length ≤ n.toNat
  full : s.client ≠ .forking → s.forked.length = n.toNat
  distinct : s.forked.Nodup
  once : s.counted.Nodup
  own : ∀ t ∈ s.counted, t ∈ s.forked
  known : ∀ t ∈ s.forked, t < s.pool.nextTask
  given :
    ∀ t ∈ s.forked, (t, latchData) ∈ s.pool.retained
  started :
    ∀ t ∈ s.counted,
      t ∈ s.pool.executed ∨ ∃ w, s.pool.phase w = .running t
  finished :
    ∀ t ∈ s.forked, t ∈ s.pool.executed → t ∈ s.counted
  called :
    ∀ w, ∀ t ∈ s.forked,
      s.pool.phase w = .running t →
        (s.called w = true ↔ t ∈ s.counted)

theorem Tallied.new
    {latch : KCountdownLatch (Option (Fin W))} :
    Tallied n (new W latch) :=
  ⟨Nat.zero_le _, fun hNot => absurd rfl hNot,
    List.nodup_nil, List.nodup_nil, nofun, nofun, nofun,
    nofun, nofun, nofun⟩

/- A task that is called for the first time did not count. -/
theorem Tallied.not_counted
    (hTallied : Tallied n s)
    {w : Fin W}
    {t : Nat}
    (hTurn : s.Turn n (.countDown w t)) :
    t ∉ s.counted := by
  rcases hTurn with ⟨hRunning, hForked, hBefore⟩
  intro hCounted
  have hCalled :=
    (hTallied.called w t hForked hRunning).mpr hCounted
  rw [hBefore] at hCalled
  cases hCalled

/- Nor did one that a worker is about to call. -/
theorem Tallied.not_counted_of_taken
    (hTallied : Tallied n s)
    (hPlaced : s.pool.Placed)
    {w : Fin W}
    {t : Nat}
    (hTaken : s.pool.phase w = .taken t) :
    t ∉ s.counted := by
  intro hCounted
  have hPending : (s.pool.phase w).pending = some t := by
    rw [hTaken]
    rfl
  rcases hTallied.started t hCounted with
    hExecuted | ⟨v, hRunning⟩
  · exact hPlaced.dispatched.notYet w t hPending hExecuted
  · have hOther : (s.pool.phase v).pending = some t := by
      rw [hRunning]
      rfl
    have hSame : v = w := hPlaced.pending_unique hPending hOther
    rw [hSame, hTaken] at hRunning
    cases hRunning

/- No more tasks count down than were posted. -/
theorem Tallied.length_lt
    (hTallied : Tallied n s)
    {t : Nat}
    (hForked : t ∈ s.forked)
    (hNot : t ∉ s.counted) :
    s.counted.length < n.toNat := by
  have hMore : (t :: s.counted).Nodup :=
    List.nodup_cons.mpr ⟨hNot, hTallied.once⟩
  have hSub : (t :: s.counted) ⊆ s.forked := by
    intro u hMem
    rcases List.mem_cons.mp hMem with rfl | hOld
    · exact hForked
    · exact hTallied.own u hOld
  have hLength := (hMore.subperm hSub).length_le
  have hMost := hTallied.most
  rw [List.length_cons] at hLength
  omega

/- All have counted down when as many have as were posted. -/
theorem Tallied.all_counted
    (hTallied : Tallied n s)
    (hLength : s.counted.length = n.toNat) :
    s.forked.length = n.toNat ∧
      ∀ t ∈ s.forked, t ∈ s.counted := by
  have hSub := hTallied.once.subperm hTallied.own
  have hMost := hTallied.most
  have hPerm := hSub.perm_of_length_le (by omega)
  exact
    ⟨by rw [← hPerm.length_eq, hLength],
      fun t hMem => hPerm.mem_iff.mpr hMem⟩

/- A call of a procedure is for one worker. -/
theorem called_next_pool
    {k : PoolStep W}
    {w : Fin W}
    (hOther : ∀ u, k ≠ .workerStart w u) :
    (s.next (.pool k)).called w = s.called w := by
  cases k with
  | workerStart v t =>
      have hNe : w ≠ v := by
        rintro rfl
        exact hOther t rfl
      exact Function.update_of_ne hNe ..
  | _ => rfl

/- A step of the pool other than a post of the client. -/
theorem Tallied.pool
    {k : PoolStep W}
    (hTallied : Tallied n s)
    (hPlaced : s.pool.Placed)
    (hRan : s.Ran k)
    (hEnabled : s.pool.Enabled k) :
    Tallied n (s.next (.pool k)) where
  most := hTallied.most
  full := hTallied.full
  distinct := hTallied.distinct
  once := hTallied.once
  own := hTallied.own
  known := by
    intro t hMem
    exact
      Nat.lt_of_lt_of_le (hTallied.known t hMem)
        KWorkerPool.nextTask_le
  given := by
    intro t hMem
    exact KWorkerPool.retained_subset (hTallied.given t hMem)
  started := by
    intro t hMem
    show t ∈ (s.pool.next k).executed ∨
      ∃ w, (s.pool.next k).phase w = .running t
    rcases hTallied.started t hMem with
      hExecuted | ⟨w, hRunning⟩
    · exact .inl (KWorkerPool.executed_subset hExecuted)
    · rcases KWorkerPool.running_or_finish hEnabled hRunning
        with hStill | hFinish
      · exact .inr ⟨w, hStill⟩
      · exact .inl (KWorkerPool.executed_of_finish hFinish)
  finished := by
    intro t hForked hExecuted
    have hAfter : t ∈ (s.pool.next k).executed := hExecuted
    rcases
        KWorkerPool.executed_of_next (s := s.pool) (l := k)
      with ⟨w, u, hFinish, hEq⟩ | ⟨_, hEq⟩
    · rw [hEq] at hAfter
      rcases List.mem_append.mp hAfter with hOld | hNew
      · exact hTallied.finished t hForked hOld
      · have hSame : t = u := List.mem_singleton.mp hNew
        subst hSame
        subst hFinish
        have hCalled : s.called w = true :=
          (hRan (w, t) rfl hForked).1
        exact
          (hTallied.called w t hForked hEnabled.1).mp hCalled
    · rw [hEq] at hAfter
      exact hTallied.finished t hForked hAfter
  called := by
    intro w t hForked hRunning
    rcases KWorkerPool.running_of_next hEnabled hRunning with
      ⟨hBefore, hOther⟩ | ⟨hTaken, rfl⟩
    · rw [called_next_pool hOther]
      exact hTallied.called w t hForked hBefore
    · have hCalled :
          (s.next (.pool (.workerStart w t))).called w =
            false := Function.update_self ..
      rw [hCalled]
      exact
        iff_of_false nofun
          (hTallied.not_counted_of_taken hPlaced hTaken)

/- A post of the client, which makes a new task. -/
theorem Tallied.fork
    (hTallied : Tallied n s)
    (hPlaced : s.pool.Placed)
    (hTurn : s.Turn n .fork) :
    Tallied n (s.next .fork) := by
  have hNew : s.pool.nextTask ∉ s.forked := by
    intro hMem
    exact Nat.lt_irrefl _ (hTallied.known _ hMem)
  constructor
  · show (s.forked ++ [s.pool.nextTask]).length ≤ n.toNat
    rw [List.length_append, List.length_singleton]
    exact hTurn.2.1
  · intro hNot
    exact absurd hTurn.1 hNot
  · exact
      List.Nodup.append hTallied.distinct
        (List.nodup_singleton _) (by simpa using hNew)
  · exact hTallied.once
  · intro t hMem
    exact List.mem_append_left _ (hTallied.own t hMem)
  · intro t hMem
    show t < s.pool.nextTask + 1
    rcases List.mem_append.mp hMem with hOld | hSelf
    · have hLt := hTallied.known t hOld
      omega
    · have hSame := List.mem_singleton.mp hSelf
      omega
  · intro t hMem
    show (t, latchData) ∈
      s.pool.retained ++ [(s.pool.nextTask, latchData)]
    rcases List.mem_append.mp hMem with hOld | hSelf
    · exact List.mem_append_left _ (hTallied.given t hOld)
    · rw [List.mem_singleton.mp hSelf]
      exact List.mem_append_right _ (List.mem_singleton_self _)
  · exact hTallied.started
  · intro t hMem hExecuted
    rcases List.mem_append.mp hMem with hOld | hSelf
    · exact hTallied.finished t hOld hExecuted
    · have hLt : t < s.pool.nextTask :=
        hPlaced.lt_of_executed hExecuted
      have hSame := List.mem_singleton.mp hSelf
      omega
  · intro w t hMem hRunning
    have hBefore : s.pool.phase w = .running t := hRunning
    have hLt : t < s.pool.nextTask := by
      apply hPlaced.lt_of_pending (w := w)
      rw [hBefore]
      rfl
    rcases List.mem_append.mp hMem with hOld | hSelf
    · exact hTallied.called w t hOld hBefore
    · have hSame := List.mem_singleton.mp hSelf
      omega

/- A task counts down. -/
theorem Tallied.countDown
    {w : Fin W}
    {t : Nat}
    (hTallied : Tallied n s)
    (hPlaced : s.pool.Placed)
    (hTurn : s.Turn n (.countDown w t)) :
    Tallied n (s.next (.countDown w t)) where
  most := hTallied.most
  full := hTallied.full
  distinct := hTallied.distinct
  once := by
    exact
      List.Nodup.append hTallied.once (List.nodup_singleton t)
        (by simpa using hTallied.not_counted hTurn)
  own := by
    intro u hMem
    rcases List.mem_append.mp hMem with hOld | hSelf
    · exact hTallied.own u hOld
    · rw [List.mem_singleton.mp hSelf]
      exact hTurn.2.1
  known := hTallied.known
  given := hTallied.given
  started := by
    intro u hMem
    rcases List.mem_append.mp hMem with hOld | hSelf
    · exact hTallied.started u hOld
    · rw [List.mem_singleton.mp hSelf]
      exact .inr ⟨w, hTurn.1⟩
  finished := by
    intro u hForked hExecuted
    exact
      List.mem_append_left _
        (hTallied.finished u hForked hExecuted)
  called := by
    intro v u hForked hRunning
    have hRunningToo : s.pool.phase v = .running u := hRunning
    show Function.update s.called w true v = true ↔
      u ∈ s.counted ++ [t]
    by_cases hSelf : v = w
    · subst hSelf
      have hSame := hTurn.1.symm.trans hRunningToo
      cases hSame
      simp
    · have hNe : u ≠ t := by
        rintro rfl
        apply hSelf
        apply hPlaced.pending_unique (t := u)
        · rw [hTurn.1]
          rfl
        · rw [hRunningToo]
          rfl
      rw [Function.update_of_ne hSelf, List.mem_append,
        List.mem_singleton, or_iff_left hNe]
      exact hTallied.called v u hForked hRunningToo

/- Every step keeps the tally. -/
theorem Tallied.next
    (hTallied : Tallied n s)
    (hPlaced : s.pool.Placed)
    (hTurn : s.Turn n l)
    (hPool : ∀ k, l.poolStep = some k → s.pool.Enabled k) :
    Tallied n (s.next l) := by
  cases l with
  | fork => exact hTallied.fork hPlaced hTurn
  | countDown w t => exact hTallied.countDown hPlaced hTurn
  | pool k => exact hTallied.pool hPlaced hTurn (hPool k rfl)
  | wait =>
      exact
        { hTallied with
          full := fun _ => hTurn.2.1 }
  | waitReturn =>
      have hFull : s.forked.length = n.toNat := by
        apply hTallied.full
        rw [show s.client = .joining from hTurn]
        nofun
      exact
        { hTallied with
          full := fun _ => hFull }
  | _ => exact { hTallied with }

end ForkJoin

end KDoth

------------------------------------------------------------
-- Who Is In The Latch
------------------------------------------------------------

namespace KDoth

/- Where the client's call on the latch can be. -/
def ForkJoinPhase.Fits :
    ForkJoinPhase → LatchPhase → Prop
| .forking, .outside => True
| .joining, .waiting => True
| .joining, .awake => True
| .joining, .passed => True
| .joined, .outside => True
| _, _ => False

namespace ForkJoin

variable {W : Nat} {n : UInt64}
variable {s : ForkJoin W} {l : ForkJoinStep W}

/-
  Each count-down took one from the count. A worker is in the
  latch only for a task that it runs, and the client only to
  wait.
-/
structure Latched (n : UInt64) (s : ForkJoin W) : Prop where
  count :
    s.latch.count.toNat + s.counted.length = n.toNat
  worker :
    ∀ w,
      s.latch.phase (some w) = .outside ∨
        ((s.latch.phase (some w) = .signaling ∨
            s.latch.phase (some w) = .counted) ∧
          ∃ t ∈ s.counted, s.pool.phase w = .running t)
  client : s.client.Fits (s.latch.phase none)
  joined : s.client = .joined → s.latch.count.toNat = 0

theorem Latched.new
    {latch : KCountdownLatch (Option (Fin W))}
    (hNew : KCountdownLatch.new n = some latch) :
    Latched n (new W latch) := by
  rcases KCountdownLatch.new_inv hNew with
    ⟨_, hCount, _, _, hOutside⟩
  constructor
  · show latch.count.toNat + 0 = n.toNat
    rw [hCount]
    rfl
  · intro w
    exact .inl (hOutside (some w))
  · show ForkJoinPhase.Fits .forking (latch.phase none)
    rw [hOutside none]
    trivial
  · nofun

/- A step of the pool lets a task go on until it has run. -/
theorem Latched.pool
    {k : PoolStep W}
    (hLatched : Latched n s)
    (hOwn : ∀ t ∈ s.counted, t ∈ s.forked)
    (hRan : s.Ran k)
    (hEnabled : s.pool.Enabled k)
    (w : Fin W) :
    s.latch.phase (some w) = .outside ∨
      ((s.latch.phase (some w) = .signaling ∨
          s.latch.phase (some w) = .counted) ∧
        ∃ t ∈ s.counted,
          (s.pool.next k).phase w = .running t) := by
  rcases hLatched.worker w with
    hOutside | ⟨hInside, t, hCounted, hRunning⟩
  · exact .inl hOutside
  · rcases KWorkerPool.running_or_finish hEnabled hRunning with
      hStill | hFinish
    · exact .inr ⟨hInside, t, hCounted, hStill⟩
    · subst hFinish
      exact .inl (hRan (w, t) rfl (hOwn t hCounted)).2

/- A step on the latch leaves other workers where they are. -/
theorem Latched.other
    {k : LatchStep (Option (Fin W))}
    (hLatched : Latched n s)
    {w : Fin W}
    (hNe : some w ≠ k.thread) :
    (s.latch.next k).phase (some w) =
      s.latch.phase (some w) := by
  rcases KCountdownLatch.phase_next_of_ne hNe with
    hSame | ⟨hWaits, _⟩
  · exact hSame
  · rcases hLatched.worker w with
      hBad | ⟨hBad | hBad, _⟩ <;>
      rw [hWaits] at hBad <;> cases hBad

/- A step of a worker leaves the client, or wakes it. -/
theorem Latched.client_next
    {k : LatchStep (Option (Fin W))}
    (hLatched : Latched n s)
    (hNe : none ≠ k.thread) :
    s.client.Fits ((s.latch.next k).phase none) := by
  have hFits := hLatched.client
  rcases KCountdownLatch.phase_next_of_ne hNe with
    hSame | ⟨hWaits, hAwake⟩
  · rw [hSame]
    exact hFits
  · rw [hWaits] at hFits
    rw [hAwake]
    cases hPhase : s.client <;> rw [hPhase] at hFits <;>
      first | exact hFits.elim | trivial

/- Where a step on the latch does not count down. -/
theorem Latched.worker_next
    {k : LatchStep (Option (Fin W))}
    (hLatched : Latched n s)
    (hNone : none = k.thread)
    (w : Fin W) :
    (s.latch.next k).phase (some w) = .outside ∨
      (((s.latch.next k).phase (some w) = .signaling ∨
          (s.latch.next k).phase (some w) = .counted) ∧
        ∃ t ∈ s.counted, s.pool.phase w = .running t) := by
  have hNe : some w ≠ k.thread := by
    rw [← hNone]
    nofun
  rw [hLatched.other hNe]
  exact hLatched.worker w

/- A turn of the client's wait. -/
theorem fits_waitTurn
    (latch : KCountdownLatch (Option (Fin W))) :
    ForkJoinPhase.Fits .joining latch.waitTurn := by
  rcases latch.waitTurn_cases with ⟨_, hTurn⟩ | ⟨_, hTurn⟩ <;>
    rw [hTurn] <;> trivial

/- A task of the client counts down. -/
theorem Latched.countDown
    {w : Fin W}
    {t : Nat}
    (hLatched : Latched n s)
    (hTallied : Tallied n s)
    (hTurn : s.Turn n (.countDown w t)) :
    Latched n (s.next (.countDown w t)) where
  count := by
    have hLess :=
      hTallied.length_lt hTurn.2.1
        (hTallied.not_counted hTurn)
    have hCount := hLatched.count
    have hSection :=
      KCountdownLatch.countDownSection_toNat s.latch.count
    show
      (KCountdownLatch.countDownSection
          s.latch.count).1.toNat +
        (s.counted ++ [t]).length = n.toNat
    rw [List.length_append, List.length_singleton]
    omega
  worker := by
    intro v
    have hRunning : s.pool.phase w = .running t := hTurn.1
    by_cases hSelf : v = w
    · subst hSelf
      right
      refine
        ⟨?_, t,
          List.mem_append_right _ (List.mem_singleton_self t),
          hRunning⟩
      have hPhase :
          (s.next (.countDown v t)).latch.phase (some v) =
            if
              (KCountdownLatch.countDownSection
                s.latch.count).2
            then .signaling
            else .counted :=
        Function.update_self ..
      rw [hPhase]
      split
      · exact .inl rfl
      · exact .inr rfl
    · have hNe :
          some v ≠
            (LatchStep.countDown (some w)).thread := by
        intro hSame
        exact hSelf (Option.some.inj hSame)
      have hPhase :
          (s.next (.countDown w t)).latch.phase (some v) =
            s.latch.phase (some v) :=
        hLatched.other hNe
      rw [hPhase]
      rcases hLatched.worker v with
        hOutside | ⟨hInside, u, hMem, hRuns⟩
      · exact .inl hOutside
      · exact
          .inr
            ⟨hInside, u, List.mem_append_left _ hMem, hRuns⟩
  client :=
    hLatched.client_next (k := .countDown (some w)) nofun
  joined := by
    intro hJoined
    have hZero := hLatched.joined hJoined
    have hLess :=
      hTallied.length_lt hTurn.2.1
        (hTallied.not_counted hTurn)
    have hCount := hLatched.count
    omega

/- The worker of a task goes on in its call on the latch. -/
theorem Latched.worker_goes
    {k : LatchStep (Option (Fin W))}
    {w : Fin W}
    (hLatched : Latched n s)
    (hThread : k.thread = some w)
    (hFrom : s.latch.phase (some w) ≠ .outside)
    (hTo :
      (s.latch.next k).phase (some w) = .counted ∨
        (s.latch.next k).phase (some w) = .outside)
    (v : Fin W) :
    (s.latch.next k).phase (some v) = .outside ∨
      (((s.latch.next k).phase (some v) = .signaling ∨
          (s.latch.next k).phase (some v) = .counted) ∧
        ∃ t ∈ s.counted, s.pool.phase v = .running t) := by
  by_cases hSelf : v = w
  · subst hSelf
    rcases hTo with hCounted | hOutside
    · rcases hLatched.worker v with hBad | ⟨_, hTask⟩
      · exact absurd hBad hFrom
      · exact .inr ⟨.inr hCounted, hTask⟩
    · exact .inl hOutside
  · have hNe : some v ≠ k.thread := by
      rw [hThread]
      intro hSame
      exact hSelf (Option.some.inj hSame)
    rw [hLatched.other hNe]
    exact hLatched.worker v

/- Every step keeps the latch in order. -/
theorem Latched.next
    (hLatched : Latched n s)
    (hTallied : Tallied n s)
    (hGate : s.latch.Gate n.toNat)
    (hTurn : s.Turn n l)
    (hPool : ∀ k, l.poolStep = some k → s.pool.Enabled k)
    (hLatch : ∀ k, l.latchStep = some k → s.latch.Enabled k) :
    Latched n (s.next l) := by
  cases l with
  | fork =>
      exact
        ⟨hLatched.count,
          hLatched.pool (k := .postBegin (some latchData))
            hTallied.own nofun (hPool _ rfl),
          hLatched.client, hLatched.joined⟩
  | pool k =>
      exact
        ⟨hLatched.count,
          hLatched.pool (k := k) hTallied.own hTurn
            (hPool _ rfl),
          hLatched.client, hLatched.joined⟩
  | countDown w t => exact hLatched.countDown hTallied hTurn
  | notifyAll w =>
      have hFrom : s.latch.phase (some w) = .signaling :=
        hLatch _ rfl
      refine
        ⟨hLatched.count,
          hLatched.worker_goes
            (k := .notifyAll (some w)) rfl ?_ (.inl ?_),
          hLatched.client_next
            (k := .notifyAll (some w)) nofun,
          hLatched.joined⟩
      · rw [hFrom]
        nofun
      · exact Function.update_self ..
  | countDownReturn w =>
      have hFrom : s.latch.phase (some w) = .counted :=
        hLatch _ rfl
      refine
        ⟨hLatched.count,
          hLatched.worker_goes
            (k := .countDownReturn (some w)) rfl ?_ (.inr ?_),
          hLatched.client_next
            (k := .countDownReturn (some w)) nofun,
          hLatched.joined⟩
      · rw [hFrom]
        nofun
      · exact Function.update_self ..
  | wait =>
      refine
        ⟨hLatched.count,
          hLatched.worker_next (k := .wait none) rfl, ?_, nofun⟩
      show ForkJoinPhase.Fits .joining
        (Function.update s.latch.phase none
          s.latch.waitTurn none)
      rw [Function.update_self]
      exact fits_waitTurn s.latch
  | recheck =>
      have hJoining : s.client = .joining := hTurn
      refine
        ⟨hLatched.count,
          hLatched.worker_next (k := .recheck none) rfl, ?_,
          hLatched.joined⟩
      show s.client.Fits
        (Function.update s.latch.phase none
          s.latch.waitTurn none)
      rw [Function.update_self, hJoining]
      exact fits_waitTurn s.latch
  | spurious =>
      have hJoining : s.client = .joining := hTurn
      refine
        ⟨hLatched.count,
          hLatched.worker_next (k := .spurious none) rfl, ?_,
          hLatched.joined⟩
      show s.client.Fits
        (Function.update s.latch.phase none .awake none)
      rw [Function.update_self, hJoining]
      trivial
  | waitReturn =>
      have hPassed : s.latch.phase none = .passed :=
        hLatch _ rfl
      refine
        ⟨hLatched.count,
          hLatched.worker_next (k := .waitReturn none) rfl,
          ?_, ?_⟩
      · show ForkJoinPhase.Fits .joined
          (Function.update s.latch.phase none .outside none)
        rw [Function.update_self]
        trivial
      · intro _
        exact hGate.count_eq_zero hPassed

/- What holds whenever a client forks and joins. -/
structure Joins (n : UInt64) (s : ForkJoin W) : Prop where
  tallied : Tallied n s
  latched : Latched n s
  gate : s.latch.Gate n.toNat
  pool : s.pool.Settled

theorem Joins.of_reachable
    (hReach : (forkJoin W n).Reachable s) :
    Joins n s := by
  have hBoth :
      (forkJoin W n).Reachable s ∧
        Tallied n s ∧ Latched n s := by
    apply hReach.invariant
    · rintro s ⟨latch, hNew, rfl⟩
      exact ⟨.init ⟨latch, hNew, rfl⟩, .new, .new hNew⟩
    · rintro s l s' ⟨hReach, hTallied, hLatched⟩ hStep
      have hPlaced :=
        KWorkerPool.Placed.of_reachable (pool_reachable hReach)
      have hReach' := hReach.step trivial hStep
      rcases step_inv hStep with
        ⟨hTurn, hPool, hLatch, rfl⟩
      exact
        ⟨hReach', hTallied.next hPlaced hTurn hPool,
          hLatched.next hTallied (gate_of_reachable hReach)
            hTurn hPool hLatch⟩
  exact
    { tallied := hBoth.2.1
      latched := hBoth.2.2
      gate := gate_of_reachable hReach
      pool := .of_reachable (pool_reachable hReach) }

end ForkJoin

end KDoth

------------------------------------------------------------
-- Joining
------------------------------------------------------------

namespace KDoth

namespace ForkJoin

variable {W : Nat} {n : UInt64} {s : ForkJoin W}

/- The count is zero for a client that is past its wait. -/
theorem Joins.count_eq_zero
    (hJoins : Joins n s)
    (hPast :
      s.client = .joined ∨ s.latch.phase none = .passed) :
    s.latch.count.toNat = 0 := by
  rcases hPast with hJoined | hPassed
  · exact hJoins.latched.joined hJoined
  · exact hJoins.gate.count_eq_zero hPassed

/- One worker has the task that counted down. -/
theorem Joins.dequeued
    (hJoins : Joins n s)
    {t : Nat}
    (hCounted : t ∈ s.counted) :
    ∃ w,
      (t, w) ∈ s.pool.dequeued ∧
        ∀ v, (t, v) ∈ s.pool.dequeued → v = w := by
  have hPlaced := hJoins.pool.placed
  have hSome : ∃ w, (t, w) ∈ s.pool.dequeued := by
    rcases hJoins.tallied.started t hCounted with
      hExecuted | ⟨w, hRunning⟩
    · exact hPlaced.dispatched.executed t hExecuted
    · refine ⟨w, hPlaced.dispatched.holds w t (.inl ?_)⟩
      rw [hRunning]
      rfl
  rcases hSome with ⟨w, hMem⟩
  exact
    ⟨w, hMem,
      fun v hOther =>
        hPlaced.queued.worker_unique hOther hMem⟩

/-
  The client gets past its wait only when it has posted as
  many tasks as the latch was made for and each of them has
  counted down, which none does twice or on two workers. The
  latch is still there for a procedure that runs, and its
  count is not zero before the procedure counts down.
-/
theorem joined_after_all
    (hReach : (forkJoin W n).Reachable s) :
    (s.client = .joined ∨ s.latch.phase none = .passed →
        s.forked.length = n.toNat ∧
          ∀ t ∈ s.forked, t ∈ s.counted) ∧
      s.latch.count.toNat + s.counted.length = n.toNat ∧
        s.counted.Nodup ∧
          (∀ t ∈ s.counted,
            t ∈ s.forked ∧
              ∃ w,
                (t, w) ∈ s.pool.dequeued ∧
                  ∀ v, (t, v) ∈ s.pool.dequeued → v = w) ∧
            ∀ w, ∀ t ∈ s.forked,
              s.pool.phase w = .running t →
                (s.pool.task t).userData = some latchData ∧
                  (t, latchData) ∉ s.pool.released ∧
                    (t ∉ s.counted →
                      0 < s.latch.count.toNat) := by
  have hJoins := Joins.of_reachable hReach
  have hCount := hJoins.latched.count
  refine ⟨?_, hCount, hJoins.tallied.once, ?_, ?_⟩
  · intro hPast
    have hZero := hJoins.count_eq_zero hPast
    exact hJoins.tallied.all_counted (by omega)
  · intro t hCounted
    exact
      ⟨hJoins.tallied.own t hCounted, hJoins.dequeued hCounted⟩
  · intro w t hForked hRunning
    rcases hJoins.pool.userData_of_running hRunning
        (hJoins.tallied.given t hForked) with
      ⟨hData, hNot⟩
    refine ⟨hData, hNot, ?_⟩
    intro hBefore
    have hLess := hJoins.tallied.length_lt hForked hBefore
    omega

/- Two tasks on two workers. -/
theorem joined_after_all_two :
    ∃ s,
      (forkJoin 2 2).Reachable s ∧
        s.client = .joined ∧
          s.forked.length = 2 ∧
            ∀ t ∈ s.forked, t ∈ s.counted := by
  have hExec :
      (forkJoin 2 2).exec
          (new 2
            { count := 2
              phase := fun _ => .outside
              completed := 0
              broadcasts := 0 })
          [.pool (.workerLock 0), .pool (.workerEnter 0), .fork,
            .pool (.postLock 0), .pool (.postAppend 0),
            .pool (.postReleaseTask 0),
            .pool (.postNotify 0 fun w => w == 0), .fork,
            .pool (.workerLock 1), .pool (.workerEnter 1),
            .pool (.postLock 1), .pool (.postAppend 1),
            .pool (.postReleaseTask 1),
            .pool (.postNotify 1 fun _ => false), .wait,
            .pool (.workerRelock 0), .pool (.workerRecheck 0),
            .pool (.workerStart 0 1), .pool (.workerStart 1 0),
            .countDown 0 1, .countDown 1 0,
            .countDownReturn 0, .pool (.workerFinish 0 1),
            .notifyAll 1, .recheck, .waitReturn] =
        some _ := rfl
  have hReach : (forkJoin 2 2).Reachable _ :=
    TransitionSystem.reachable_of_exec ⟨_, rfl, rfl⟩ hExec
  exact
    ⟨_, hReach, rfl, (joined_after_all hReach).1 (.inl rfl)⟩

end ForkJoin

end KDoth
