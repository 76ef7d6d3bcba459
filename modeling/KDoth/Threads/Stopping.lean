import KDoth.Threads.Regularity

/-
  How the workers stop. With the flag set a worker leaves at
  most two more critical sections and does not block, and a
  worker whose task terminates can get to its end, so that
  the shutdown can join it.

  Key definitions include:
    * `Worker.distance`
    * `KWorkerPool.Stoppable`
    * `KWorkerPool.Stops`

  Key theorems include:
    * `KWorkerPool.capacity_of_exec`
    * `KWorkerPool.Stoppable.progress`
    * `KWorkerPool.workers_stop`
-/

------------------------------------------------------------
-- Leaving Critical Sections
------------------------------------------------------------

namespace KDoth

namespace Worker

theorem capacity_le (v : Worker) : v.capacity ≤ 2 := by
  unfold capacity
  cases v.isRunning <;> split <;> simp

end Worker

namespace KWorkerPool

variable {W : Nat}
variable {s s' : KWorkerPool W}
variable {l : PoolStep W}
variable {w : Fin W}

/- Without a task a worker goes around its loop, or ends. -/
theorem leaves_of_checks
    {isRunning : Bool}
    (hChecks : s.Checks l w isRunning)
    (hTasks : s.tasks = [])
    (hFlag : s.shutdown = true) :
    (s.next l).workers w =
      { phase := if isRunning = true then .loop else .ended
        isRunning := isRunning } := by
  rcases hChecks with ⟨rfl, _, hRun⟩ | ⟨rfl, _, hRun⟩
  · have hEmpty : (s.readFlag w).tasks = [] := hTasks
    have hSet : (s.readFlag w).shutdown = true := hFlag
    rw [next, waitOrTake, take, hEmpty, hSet, hRun]
    simp [setMutex, setPhase, readFlag]
  · rw [next, waitOrTake, take, hTasks, hFlag, hRun]
    simp [setMutex, setPhase]

/-
  With the flag set a critical section is left with a task or
  without one, and one unit of capacity is used either way.
-/
theorem capacity_of_leaves
    (hEnabled : s.Enabled l)
    (hFlag : s.shutdown = true)
    (hLeaves : l.leaves w = true) :
    ((s.next l).workers w).capacity + 1 =
      (s.workers w).capacity := by
  rcases checks_of_leaves hEnabled hLeaves with
    ⟨isRunning, hChecks⟩
  cases hTasks : s.tasks with
  | cons t rest => exact capacity_of_checks hFlag hChecks hTasks
  | nil =>
      have hPhaseEq : s.phase w = (s.workers w).phase := rfl
      rw [leaves_of_checks hChecks hTasks hFlag]
      rcases hChecks with ⟨_, hPhase, hRun⟩ | ⟨_, hPhase, hRun⟩
      · rw [hPhaseEq] at hPhase
        simp [Worker.capacity, hPhase, hRun, hFlag]
      · rw [hPhaseEq] at hPhase
        cases hIs : (s.workers w).isRunning <;>
          simp [Worker.capacity, hPhase, hRun, hIs]

/- Only leaving critical sections uses up capacity. -/
theorem capacity_of_step
    (hEnabled : s.Enabled l)
    (hFlag : s.shutdown = true) :
    (if l.leaves w = true then 1 else 0) +
        ((s.next l).workers w).capacity =
      (s.workers w).capacity := by
  by_cases hLeaves : l.leaves w = true
  · rw [if_pos hLeaves, Nat.add_comm]
    exact capacity_of_leaves hEnabled hFlag hLeaves
  · rw [if_neg hLeaves, Nat.zero_add]
    apply capacity_of_not_checks hEnabled
    exact fun isRunning hChecks => hLeaves hChecks.leaves

/- What a worker leaves in a run is taken off its capacity. -/
theorem capacity_of_exec
    {ls : List (PoolStep W)}
    (hFlag : s.shutdown = true)
    (hExec : (workerPool W).exec s ls = some s') :
    ls.countP (PoolStep.leaves w) +
        (s'.workers w).capacity =
      (s.workers w).capacity := by
  induction ls generalizing s with
  | nil =>
      simp only [TransitionSystem.exec, Option.some.injEq]
        at hExec
      rw [hExec, List.countP_nil, Nat.zero_add]
  | cons l ls ih =>
      rcases TransitionSystem.exec_cons hExec with
        ⟨next, hStep, hTail⟩
      rcases step_inv hStep with ⟨hEnabled, rfl⟩
      have hRest := ih (shutdown_next hFlag) hTail
      have hHead := capacity_of_step (w := w) hEnabled hFlag
      rw [List.countP_cons]
      omega

/- A task that leaves the list is given to who is at it. -/
theorem dequeued_of_step
    (hEnabled : s.Enabled l) :
    ∃ given,
      (s.next l).dequeued = s.dequeued ++ given ∧
        ∀ w,
          given.countP (fun p => p.2 == w) ≤
            (if l.leaves w = true then 1 else 0) := by
  cases queue_of_next (s := s) (l := l) with
  | same _ _ _ hSame _ _
  | appends _ _ hSame _ _
  | destroys _ _ hSame _ _ =>
      refine ⟨[], ?_, fun w => by simp⟩
      rw [hSame, List.append_nil]
  | @takes v t rest hStep _ _ _ hTaken _ _ =>
      refine ⟨[(t, v)], hTaken, ?_⟩
      intro w
      rcases checks_of_step hEnabled hStep with
        ⟨isRunning, hChecks⟩
      by_cases hSelf : v = w
      · subst hSelf
        rw [if_pos hChecks.leaves]
        simp
      · simp [hSelf]

theorem dequeued_of_exec
    {ls : List (PoolStep W)}
    (hExec : (workerPool W).exec s ls = some s') :
    ∃ given,
      s'.dequeued = s.dequeued ++ given ∧
        ∀ w,
          given.countP (fun p => p.2 == w) ≤
            ls.countP (PoolStep.leaves w) := by
  induction ls generalizing s with
  | nil =>
      simp only [TransitionSystem.exec, Option.some.injEq]
        at hExec
      subst hExec
      exact ⟨[], (List.append_nil _).symm, fun w => by simp⟩
  | cons l ls ih =>
      rcases TransitionSystem.exec_cons hExec with
        ⟨next, hStep, hTail⟩
      rcases step_inv hStep with ⟨hEnabled, rfl⟩
      rcases dequeued_of_step hEnabled with
        ⟨first, hFirst, hFirstLe⟩
      rcases ih hTail with ⟨rest, hRest, hRestLe⟩
      refine ⟨first ++ rest, ?_, ?_⟩
      · rw [hRest, hFirst, List.append_assoc]
      · intro w
        have hHead := hFirstLe w
        have hLater := hRestLe w
        rw [List.countP_append, List.countP_cons]
        omega

end KWorkerPool

end KDoth

------------------------------------------------------------
-- The Way to the End
------------------------------------------------------------

namespace KDoth

namespace Worker

/-
  The steps of a worker to its end with the flag set. Once
  around the loop it finds the flag.
-/
def distance (v : Worker) : Nat :=
  match v.phase with
  | .loop => 6
  | .entered => 5
  | .waiting => 7 + around
  | .awake => 6 + around
  | .reentered => 5 + around
  | .taken _ => 4 + around
  | .running _ => 3 + around
  | .ran _ => 2 + around
  | .released _ => 1 + around
  | .ended => 0
where
  around : Nat := if v.isRunning = true then 6 else 0

end Worker

namespace KWorkerPool

variable {W : Nat}
variable {s s' : KWorkerPool W}
variable {l : PoolStep W}
variable {w : Fin W}

/- An owner of the mutex is in the way. -/
def rank (w : Fin W) (s : KWorkerPool W) : Nat :=
  2 * (s.workers w).distance +
    (if s.mutex = none then 0 else 1)

/- The calls that are past the flag are left alone. -/
structure KeepsCalls
    (s : KWorkerPool W)
    (l : PoolStep W) : Prop where
  calls :
    ∀ d,
      (s.next l).calls d = s.calls d ∨
        (((s.calls d).phase = .locked ∨
          (s.calls d).phase = .notifying) ∧
          ((s.next l).calls d).caller = (s.calls d).caller)
  nextCall : (s.next l).nextCall = s.nextCall
  deInit : (s.next l).deInit = s.deInit
  destroyed : (s.next l).destroyed = s.destroyed

/-
  With the flag set the task of the worker is in no shutdown
  of its own. The joins that were in progress still are.
-/
structure Stoppable
    (s₀ : KWorkerPool W)
    (w : Fin W)
    (s : KWorkerPool W) : Prop where
  reach : (workerPool W).Reachable s
  flag : s.shutdown = true
  free : s.Free w
  calls :
    ∀ c i n,
      (s₀.calls c).phase = .joining i n →
        s.calls c = s₀.calls c

theorem Stoppable.next
    {s₀ : KWorkerPool W}
    (hStoppable : Stoppable s₀ w s)
    (hEnabled : s.Enabled l)
    (hKeeps : s.KeepsCalls l) :
    Stoppable s₀ w (s.next l) := by
  constructor
  · apply hStoppable.reach.step trivial
    exact if_pos hEnabled
  · exact shutdown_next hStoppable.flag
  · intro d hBound hCaller
    rw [hKeeps.nextCall] at hBound
    rw [hKeeps.deInit, hKeeps.destroyed]
    rcases hKeeps.calls d with hSame | ⟨hPhase, hSameCaller⟩
    · rw [hSame] at hCaller ⊢
      exact hStoppable.free d hBound hCaller
    · rw [hSameCaller] at hCaller
      have hReturned := (hStoppable.free d hBound hCaller).1
      rcases hPhase with hBad | hBad <;>
        rw [hReturned] at hBad <;> cases hBad
  · intro c i n hJoining
    have hSame := hStoppable.calls c i n hJoining
    rcases hKeeps.calls c with hKept | ⟨hPhase, _⟩
    · rw [hKept, hSame]
    · rw [hSame, hJoining] at hPhase
      rcases hPhase with hBad | hBad <;> cases hBad

/- A step on the way to the end. -/
theorem Stoppable.step
    {s₀ : KWorkerPool W}
    (hStoppable : Stoppable s₀ w s)
    (hEnabled : s.Enabled l)
    (hKeeps : s.KeepsCalls l)
    (hRank : rank w (s.next l) < rank w s) :
    (workerPool W).Nears (Stoppable s₀ w) (rank w) s :=
  ⟨s.next l, .single (if_pos hEnabled),
    hStoppable.next hEnabled hKeeps, hRank⟩

/- The worker's own step brings it nearer. -/
theorem rank_of_worker
    (worker : Worker)
    (hWorker : (s.next l).workers w = worker)
    (hLess : worker.distance < (s.workers w).distance) :
    rank w (s.next l) < rank w s := by
  unfold rank
  rw [hWorker]
  split <;> split <;> omega

theorem distance_of_checks
    {isRunning : Bool}
    (hChecks : s.Checks l w isRunning)
    (hFlag : s.shutdown = true) :
    ((s.next l).workers w).distance <
      (s.workers w).distance := by
  have hPhaseEq : s.phase w = (s.workers w).phase := rfl
  cases hTasks : s.tasks with
  | cons t rest =>
      rw [(takes_of_checks hChecks hTasks).2.2]
      rcases hChecks with ⟨_, hPhase, hRun⟩ | ⟨_, hPhase, hRun⟩ <;>
        rw [hPhaseEq] at hPhase <;>
        simp [Worker.distance, Worker.distance.around, hPhase,
          hRun, hFlag]
  | nil =>
      rw [leaves_of_checks hChecks hTasks hFlag]
      rcases hChecks with ⟨_, hPhase, hRun⟩ | ⟨_, hPhase, hRun⟩ <;>
        rw [hPhaseEq] at hPhase <;>
        cases hIs : (s.workers w).isRunning <;>
        simp [Worker.distance, Worker.distance.around, hPhase,
          hRun, hFlag, hIs]

theorem KeepsCalls.of_same
    (hCalls : (s.next l).calls = s.calls)
    (hNext : (s.next l).nextCall = s.nextCall)
    (hDeInit : (s.next l).deInit = s.deInit)
    (hDestroyed : (s.next l).destroyed = s.destroyed) :
    s.KeepsCalls l :=
  { calls := fun d => .inl (by rw [hCalls])
    nextCall := hNext
    deInit := hDeInit
    destroyed := hDestroyed }

theorem KeepsCalls.of_leaves
    (hEnabled : s.Enabled l)
    (hLeaves : l.leaves w = true) :
    s.KeepsCalls l := by
  rcases checks_of_leaves hEnabled hLeaves with
    ⟨isRunning, ⟨rfl, _⟩ | ⟨rfl, _⟩⟩
  · rcases s.next_workerEnter w with
      ⟨workers, tasks, d, hEq⟩
    apply KeepsCalls.of_same <;> rw [hEq]
  · rcases s.next_workerRecheck w with
      ⟨workers, tasks, d, hEq⟩
    apply KeepsCalls.of_same <;> rw [hEq]

/- A call that sets the flag or wakes all moves alone. -/
theorem KeepsCalls.of_setCall
    {c : Nat}
    {phase : ShutdownPhase}
    (hCalls :
      (s.next l).calls = (s.setCall c phase).calls)
    (hPhase :
      (s.calls c).phase = .locked ∨
        (s.calls c).phase = .notifying)
    (hNext : (s.next l).nextCall = s.nextCall)
    (hDeInit : (s.next l).deInit = s.deInit)
    (hDestroyed : (s.next l).destroyed = s.destroyed) :
    s.KeepsCalls l := by
  refine ⟨?_, hNext, hDeInit, hDestroyed⟩
  intro d
  rw [hCalls]
  rcases s.setCall_cases c phase d with hSame | ⟨rfl, hNew⟩
  · exact .inl hSame
  · right
    refine ⟨hPhase, ?_⟩
    rw [hNew]

/- Who is in the critical section can leave it. -/
theorem Inside.keeps
    {owner : MutexOwner W}
    (hInside : s.Inside owner) :
    s.KeepsCalls (s.exit owner) := by
  have hEnabled := hInside.exits.1
  cases owner with
  | poster t => exact .of_same rfl rfl rfl rfl
  | shutdown c =>
      exact .of_setCall rfl (.inl hInside) rfl rfl rfl
  | worker v =>
      apply KeepsCalls.of_leaves (w := v) hEnabled
      unfold exit
      dsimp only
      split <;> simp [PoolStep.leaves]

/- A worker outside is not moved by who leaves. -/
theorem worker_of_exit
    {owner : MutexOwner W}
    (hOutside : owner ≠ .worker w) :
    (s.next (s.exit owner)).workers w = s.workers w := by
  cases owner with
  | poster t => rfl
  | shutdown c => rfl
  | worker v =>
      have hNe : w ≠ v := by
        rintro rfl
        exact hOutside rfl
      unfold exit
      dsimp only
      split
      · exact
          ((s.readFlag v).waitOrTake_of_ne hNe).trans
            (Function.update_of_ne hNe ..)
      · exact s.waitOrTake_of_ne hNe

/- Without the mutex a worker waits for who has it. -/
theorem Stoppable.lock
    {s₀ : KWorkerPool W}
    (hStoppable : Stoppable s₀ w s)
    (hOwned : s.Owned)
    (hOutside : ¬ s.Inside (.worker w))
    (hLock :
      s.mutex = none →
        (workerPool W).Nears (Stoppable s₀ w) (rank w) s) :
    (workerPool W).Nears (Stoppable s₀ w) (rank w) s := by
  cases hMutex : s.mutex with
  | none => exact hLock hMutex
  | some owner =>
      have hInside := hOwned owner hMutex
      have hOther : owner ≠ .worker w := by
        rintro rfl
        exact hOutside hInside
      apply hStoppable.step hInside.exits.1 hInside.keeps
      unfold rank
      rw [worker_of_exit hOther, hInside.exits.2, hMutex]
      simp

/- User data is released while another reference is left. -/
theorem Stoppable.clearData
    {s₀ : KWorkerPool W}
    (hStoppable : Stoppable s₀ w s)
    {t : Nat}
    (hPhase : s.phase w = .ran t)
    (hData :
      (s.task t).userData = some .pool →
        0 < s.pinned ∧ s.refCount ≠ 1) :
    (workerPool W).Nears (Stoppable s₀ w) (rank w) s := by
  have hEnabled : s.Enabled (.workerReleaseUserData w t) := by
    refine ⟨hPhase, hStoppable.free, ?_⟩
    intro hPool
    rcases hData hPool with ⟨hPinned, hMore⟩
    exact ⟨hPinned, fun hLast => absurd hLast hMore⟩
  have hFrame :
      ∃ pinned,
        s.next (.workerReleaseUserData w t) =
          { s.clearTask w t with pinned := pinned } := by
    by_cases hPool : (s.task t).userData = some .pool
    · refine ⟨s.pinned - 1, ?_⟩
      rw [KWorkerPool.next, releaseUserData, if_pos hPool]
      rcases deInitIfLast_cases
          { s.clearTask w t with pinned := s.pinned - 1 }
          (some w) with
        ⟨_, hEq⟩ | ⟨hZero, _⟩
      · exact hEq
      · exfalso
        rcases hData hPool with ⟨hPinned, hMore⟩
        have hCount : s.clients + (s.pinned - 1) = 0 := hZero
        unfold refCount at hMore
        omega
    · refine ⟨s.pinned, ?_⟩
      rw [KWorkerPool.next, releaseUserData, if_neg hPool]
      rfl
  rcases hFrame with ⟨pinned, hEq⟩
  apply hStoppable.step hEnabled
  · apply KeepsCalls.of_same <;> rw [hEq] <;> rfl
  · have hWorker :
        (s.next (.workerReleaseUserData w t)).workers w =
          { s.workers w with phase := .released t } := by
      rw [hEq]
      exact Function.update_self ..
    apply rank_of_worker _ hWorker
    have hBefore : (s.workers w).phase = .ran t := hPhase
    simp [Worker.distance, Worker.distance.around, hBefore]

/-
  The release of the user data of a task. A last reference is
  not that of the task: who shuts the pool down has one.
-/
theorem Stoppable.clear
    {s₀ : KWorkerPool W}
    (hStoppable : Stoppable s₀ w s)
    (hRegular : s.Regular)
    {t : Nat}
    (hPhase : s.phase w = .ran t) :
    (workerPool W).Nears (Stoppable s₀ w) (rank w) s := by
  have hPinned :
      (s.task t).userData = some .pool → 0 < s.pinned :=
    hRegular.pinned.pos hRegular.settled.released
  by_cases hLast : s.refCount = 1
  · have hPositive : 0 < s.refCount := by omega
    have hEnabled : s.Enabled .retain := hPositive
    have hStoppable' :=
      hStoppable.next hEnabled (.of_same rfl rfl rfl rfl)
    have hMore : (s.next .retain).refCount ≠ 1 := by
      have hCount :
          (s.next .retain).refCount =
            s.clients + 1 + s.pinned := rfl
      unfold refCount at hLast
      omega
    have hData :
        ((s.next .retain).task t).userData = some .pool →
          0 < (s.next .retain).pinned ∧
            (s.next .retain).refCount ≠ 1 := fun hPool =>
      ⟨hPinned hPool, hMore⟩
    rcases hStoppable'.clearData hPhase hData with
      ⟨s', hLeads, hReady, hRank⟩
    refine ⟨s', ?_, hReady, hRank⟩
    exact .trans (.single (if_pos hEnabled)) hLeads
  · apply hStoppable.clearData hPhase
    exact fun hPool => ⟨hPinned hPool, hLast⟩

/- A worker in its critical section reads the flag. -/
theorem Stoppable.reads
    {s₀ : KWorkerPool W}
    (hStoppable : Stoppable s₀ w s)
    (hEnabled : s.Enabled l)
    (hLeaves : l.leaves w = true) :
    (workerPool W).Nears (Stoppable s₀ w) (rank w) s := by
  rcases checks_of_leaves hEnabled hLeaves with
    ⟨isRunning, hChecks⟩
  apply hStoppable.step hEnabled
    (.of_leaves hEnabled hLeaves)
  apply rank_of_worker _ rfl
  exact distance_of_checks hChecks hStoppable.flag

theorem not_inside
    (hEntered : s.phase w ≠ .entered)
    (hReentered : s.phase w ≠ .reentered) :
    ¬ s.Inside (.worker w) := by
  rintro (hBad | hBad)
  · exact hEntered hBad
  · exact hReentered hBad

/- A worker that has not ended can get nearer to its end. -/
theorem Stoppable.progress
    {s₀ : KWorkerPool W}
    (hStoppable : Stoppable s₀ w s) :
    s.phase w = .ended ∨
      (workerPool W).Nears (Stoppable s₀ w) (rank w) s := by
  have hRegular :=
    Regular.of_reachable w.pos hStoppable.reach
  have hPhaseEq : s.phase w = (s.workers w).phase := rfl
  cases hPhase : s.phase w with
  | ended => exact .inl rfl
  | loop =>
      right
      apply hStoppable.lock hRegular.owned
      · apply not_inside <;> simp [hPhase]
      · intro hMutex
        apply hStoppable.step (l := .workerLock w)
          ⟨hPhase, hMutex⟩ (.of_same rfl rfl rfl rfl)
        refine
          rank_of_worker { s.workers w with phase := .entered }
            (Function.update_self ..) ?_
        rw [hPhaseEq] at hPhase
        simp [Worker.distance, hPhase]
  | entered =>
      right
      apply hStoppable.reads (l := .workerEnter w) hPhase
      simp [PoolStep.leaves]
  | waiting =>
      right
      rcases hRegular.awakened.flag hStoppable.flag ⟨w, hPhase⟩
        with ⟨c, hNotifying⟩
      apply hStoppable.step (l := .shutdownNotifyAll c)
        hNotifying
      · exact .of_setCall rfl (.inr hNotifying) rfl rfl rfl
      · have hWorker :
            (s.next (.shutdownNotifyAll c)).workers w =
              { s.workers w with phase := .awake } :=
          if_pos (by simp [hPhase])
        apply rank_of_worker _ hWorker
        rw [hPhaseEq] at hPhase
        simp [Worker.distance, Worker.distance.around, hPhase]
  | awake =>
      right
      apply hStoppable.lock hRegular.owned
      · apply not_inside <;> simp [hPhase]
      · intro hMutex
        apply hStoppable.step (l := .workerRelock w)
          ⟨hPhase, hMutex⟩ (.of_same rfl rfl rfl rfl)
        refine
          rank_of_worker { s.workers w with phase := .reentered }
            (Function.update_self ..) ?_
        rw [hPhaseEq] at hPhase
        simp [Worker.distance, Worker.distance.around, hPhase]
  | reentered =>
      right
      apply hStoppable.reads (l := .workerRecheck w) hPhase
      simp [PoolStep.leaves]
  | taken t =>
      right
      apply hStoppable.step (l := .workerStart w t) hPhase
        (.of_same rfl rfl rfl rfl)
      refine
        rank_of_worker { s.workers w with phase := .running t }
          (Function.update_self ..) ?_
      rw [hPhaseEq] at hPhase
      simp [Worker.distance, Worker.distance.around, hPhase]
  | running t =>
      right
      apply hStoppable.step (l := .workerFinish w t)
        ⟨hPhase, hStoppable.free⟩ (.of_same rfl rfl rfl rfl)
      refine
        rank_of_worker { s.workers w with phase := .ran t }
          (Function.update_self ..) ?_
      rw [hPhaseEq] at hPhase
      simp [Worker.distance, Worker.distance.around, hPhase]
  | ran t => exact .inr (hStoppable.clear hRegular hPhase)
  | released t =>
      right
      apply hStoppable.step (l := .workerReleaseTask w t)
        ⟨hPhase, hStoppable.free⟩ (.of_same rfl rfl rfl rfl)
      refine
        rank_of_worker
          { s.workers w with
            phase :=
              if (s.workers w).isRunning = true then .loop
              else .ended }
          (Function.update_self ..) ?_
      rw [hPhaseEq] at hPhase
      cases hRun : (s.workers w).isRunning <;>
        simp [Worker.distance, Worker.distance.around, hPhase,
          hRun]

/- A worker whose task terminates can get to its end. -/
theorem Stoppable.ends
    (hReach : (workerPool W).Reachable s)
    (hFlag : s.shutdown = true)
    (hFree : s.Free w) :
    ∃ s',
      (workerPool W).Leads s s' ∧ s'.phase w = .ended ∧
        ∀ c i n,
          (s.calls c).phase = .joining i n →
            s'.calls c = s.calls c := by
  have hStart : Stoppable s w s :=
    ⟨hReach, hFlag, hFree, fun _ _ _ _ => rfl⟩
  rcases TransitionSystem.leads_of_progress (rank w)
      (fun _ (hReady : Stoppable s w _) => hReady.progress)
      hStart with
    ⟨s', hLeads, hStoppable, hEnded⟩
  exact ⟨s', hLeads, hEnded, hStoppable.calls⟩

end KWorkerPool

end KDoth

------------------------------------------------------------
-- Main Result
------------------------------------------------------------

namespace KDoth

namespace KWorkerPool

variable {W : Nat}
variable {s s' : KWorkerPool W}
variable {w : Fin W}

/- A join in progress stays so until it can return. -/
theorem join_or_same
    {ls : List (PoolStep W)}
    {c n : Nat}
    (hReach : (workerPool W).Reachable s)
    (hExec : (workerPool W).exec s ls = some s')
    (hJoining : (s.calls c).phase = .joining w.val n)
    (hBound : w.val < n) :
    (∃ s₁,
        (workerPool W).Leads s s₁ ∧
          s₁.Enabled (.shutdownJoin c w)) ∨
      s'.calls c = s.calls c := by
  induction ls generalizing s with
  | nil =>
      simp only [TransitionSystem.exec, Option.some.injEq]
        at hExec
      rw [hExec]
      exact .inr rfl
  | cons l ls ih =>
      rcases TransitionSystem.exec_cons hExec with
        ⟨next, hStep, hTail⟩
      have hReach' := hReach.step trivial hStep
      have hLeads := TransitionSystem.Leads.single hStep
      rcases step_inv hStep with ⟨hEnabled, rfl⟩
      have hFresh := (Placed.of_reachable hReach).fresh
      cases call_of_next hEnabled c with
      | same hSame =>
          have hStill :
              ((s.next l).calls c).phase = .joining w.val n := by
            rw [hSame]
            exact hJoining
          rcases ih hReach' hTail hStill with
            ⟨s₁, hRest, hReturns⟩ | hEq
          · exact .inl ⟨s₁, hLeads.trans hRest, hReturns⟩
          · exact .inr (hEq.trans hSame)
      | begins hSelf _ _ _ =>
          rw [hFresh.calls c (le_of_eq hSelf.symm)] at hJoining
          cases hJoining
      | advances hStep _ =>
          cases hStep with
          | lock =>
              have hBad := hEnabled.1
              rw [hJoining] at hBad
              cases hBad
          | setFlag =>
              have hBad : (s.calls c).phase = .locked := hEnabled
              rw [hJoining] at hBad
              cases hBad
          | notifyAll =>
              have hBad : (s.calls c).phase = .notifying :=
                hEnabled
              rw [hJoining] at hBad
              cases hBad
          | @join v m hPhase _ _ =>
              rw [hJoining] at hPhase
              injection hPhase with hIndex _
              have hSame : w = v := Fin.ext hIndex
              subst hSame
              exact .inl ⟨s, .refl s, hEnabled⟩
          | clear hPhase =>
              rw [hJoining] at hPhase
              injection hPhase with hFirst hSecond
              omega

/-
  With the flag set, whatever is posted and however the
  threads are scheduled: each worker leaves at most two more
  critical sections and takes at most as many tasks, no worker
  blocks, and one whose task terminates, which is when it is
  in no shutdown of its own, can get to its end and be joined.
-/
structure Stops (s : KWorkerPool W) : Prop where
  leaves :
    ∀ w ls s',
      (workerPool W).exec s ls = some s' →
        ls.countP (PoolStep.leaves w) ≤ 2
  takes :
    ∀ w ls s',
      (workerPool W).exec s ls = some s' →
        ∃ given,
          s'.dequeued = s.dequeued ++ given ∧
            given.countP (fun p => p.2 == w) ≤ 2
  blocks :
    ∀ w l s',
      (workerPool W).Leads s s' →
        s'.Enabled l →
          (s'.next l).phase w = .waiting →
            s'.phase w = .waiting
  ends :
    ∀ w s₁,
      (workerPool W).Leads s s₁ →
        s₁.Free w →
          ∃ s',
            (workerPool W).Leads s s' ∧ s'.phase w = .ended
  joins :
    ∀ c w n s₁,
      (s.calls c).phase = .joining w.val n →
        w.val < n →
          (workerPool W).Leads s s₁ →
            s₁.Free w →
              ∃ s',
                (workerPool W).Leads s s' ∧
                  s'.Enabled (.shutdownJoin c w)

theorem flag_of_leads
    (hFlag : s.shutdown = true)
    (hLeads : (workerPool W).Leads s s') :
    s'.shutdown = true := by
  rcases hLeads with ⟨ls, hExec⟩
  apply
    TransitionSystem.exec_invariant
      (fun r => r.shutdown = true) _ hFlag hExec
  intro r l r' hSet hStep
  rcases step_inv hStep with ⟨_, rfl⟩
  exact shutdown_next hSet

/-
  Once the flag is set, whatever is done and in any order, no
  worker leaves a wait or takes a task more than twice, none
  blocks any more, and each can end and be joined.
-/
theorem workers_stop
    (hReach : (workerPool W).Reachable s)
    (hFlag : s.shutdown = true) :
    s.Stops := by
  have hLeaves :
      ∀ w ls s',
        (workerPool W).exec s ls = some s' →
          ls.countP (PoolStep.leaves w) ≤ 2 := by
    intro w ls s' hExec
    have hUsed := capacity_of_exec (w := w) hFlag hExec
    have hMost := (s.workers w).capacity_le
    omega
  constructor
  · exact hLeaves
  · intro w ls s' hExec
    rcases dequeued_of_exec hExec with ⟨given, hGiven, hLe⟩
    exact ⟨given, hGiven, (hLe w).trans (hLeaves w ls s' hExec)⟩
  · intro w l s' hLeads hEnabled hWaiting
    have hSet := flag_of_leads hFlag hLeads
    rcases waiting_of_next hEnabled hWaiting with
      hBefore | ⟨_, hClear⟩
    · exact hBefore
    · rw [hSet] at hClear
      cases hClear
  · intro w s₁ hLeads hFree
    rcases Stoppable.ends (hReach.leads hLeads)
        (flag_of_leads hFlag hLeads) hFree with
      ⟨s', hRest, hEnded, _⟩
    exact ⟨s', hLeads.trans hRest, hEnded⟩
  · intro c w n s₁ hJoining hBound hLeads hFree
    have hReach₁ := hReach.leads hLeads
    have hFlag₁ := flag_of_leads hFlag hLeads
    rcases id hLeads with ⟨ls, hExec⟩
    rcases join_or_same hReach hExec hJoining hBound with
      hReturned | hSame
    · exact hReturned
    · have hStill :
          (s₁.calls c).phase = .joining w.val n := by
        rw [hSame]
        exact hJoining
      rcases Stoppable.ends hReach₁ hFlag₁ hFree with
        ⟨s', hRest, hEnded, hCalls⟩
      have hPhase :
          (s'.calls c).phase = .joining w.val n := by
        rw [hCalls c _ _ hStill]
        exact hStill
      have hRegular :=
        Regular.of_reachable w.pos (hReach₁.leads hRest)
      have hCount := (hRegular.woken.joining c _ _ hPhase).1
      refine ⟨s', hLeads.trans hRest, ?_, ?_⟩
      · exact ⟨n, hCount, hPhase, hBound⟩
      · exact .inr (.inr (.inl hEnded))

/- A worker that is blocked when the flag is set. -/
theorem workers_stop_blocked :
    ∃ s,
      (workerPool 1).exec (new 1)
          [.workerLock 0, .workerEnter 0, .shutdownBegin none,
            .shutdownLock 0, .shutdownSetFlag 0] = some s ∧
        s.phase 0 = .waiting ∧ s.Stops := by
  have hExec :
      (workerPool 1).exec (new 1)
          [.workerLock 0, .workerEnter 0, .shutdownBegin none,
            .shutdownLock 0, .shutdownSetFlag 0] = some _ := rfl
  have hReach : (workerPool 1).Reachable _ :=
    TransitionSystem.reachable_of_exec rfl hExec
  exact ⟨_, hExec, rfl, workers_stop hReach rfl⟩

end KWorkerPool

end KDoth
