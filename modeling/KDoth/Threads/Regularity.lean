import KDoth.Threads.Conservation
import KDoth.Threads.Draining
import KDoth.Threads.Wakeups

/-
  What holds in every state of the pool besides the account
  of its tasks: the owner of the mutex is in the critical
  section, the references of tasks to the pool are counted,
  and a shutdown that joins has woken the workers.

  Key definitions include:
    * `PoolStep.leaves`
    * `KWorkerPool.Owned`
    * `KWorkerPool.exit`
    * `KWorkerPool.Pinned`
    * `KWorkerPool.Woken`
    * `KWorkerPool.Regular`

  Key theorems include:
    * `KWorkerPool.mutex_of_next`
    * `KWorkerPool.Inside.exits`
    * `KWorkerPool.Pinned.next`
    * `KWorkerPool.Regular.of_reachable`
-/

------------------------------------------------------------
-- The Mutex
------------------------------------------------------------

namespace KDoth

/- The critical section of a worker is left, or blocks it. -/
def PoolStep.leaves
    {W : Nat}
    (w : Fin W) : PoolStep W → Bool
| .workerEnter v => v == w
| .workerRecheck v => v == w
| _ => false

namespace KWorkerPool

variable {W : Nat}
variable {s s' : KWorkerPool W}
variable {l : PoolStep W}
variable {w : Fin W}

theorem checks_of_leaves
    (hEnabled : s.Enabled l)
    (hLeaves : l.leaves w = true) :
    ∃ isRunning, s.Checks l w isRunning := by
  apply checks_of_step hEnabled
  cases l with
  | workerEnter v =>
      have hSame : v = w := by simpa [PoolStep.leaves] using hLeaves
      exact .inl (by rw [hSame])
  | workerRecheck v =>
      have hSame : v = w := by simpa [PoolStep.leaves] using hLeaves
      exact .inr (by rw [hSame])
  | _ => cases hLeaves

theorem Checks.leaves
    {isRunning : Bool}
    (hChecks : s.Checks l w isRunning) :
    l.leaves w = true := by
  rcases hChecks with ⟨rfl, _⟩ | ⟨rfl, _⟩ <;>
    simp [PoolStep.leaves]

/- A thread is in the critical section. -/
def Inside (s : KWorkerPool W) : MutexOwner W → Prop
| .worker w => s.phase w = .entered ∨ s.phase w = .reentered
| .poster t => s.posts t = .locked
| .shutdown c => (s.calls c).phase = .locked

/- The owner of the mutex is in the critical section. -/
def Owned (s : KWorkerPool W) : Prop :=
  ∀ owner, s.mutex = some owner → s.Inside owner

/- What can happen to the mutex. -/
inductive MutexMoves
    (s : KWorkerPool W)
    (l : PoolStep W) : Prop
| same
    (hMutex : (s.next l).mutex = s.mutex)
    (hWorker : ∀ w, l.leaves w = false)
    (hPoster : ∀ t, l ≠ .postAppend t)
    (hShutdown : ∀ c, l ≠ .shutdownSetFlag c)
| takes {owner : MutexOwner W}
    (hMutex : (s.next l).mutex = some owner)
    (hInside : (s.next l).Inside owner)
| gives
    (hMutex : (s.next l).mutex = none)

theorem mutex_of_next : s.MutexMoves l := by
  cases l with
  | postLock t =>
      exact .takes rfl (Function.update_self ..)
  | workerLock w =>
      apply MutexMoves.takes rfl
      left
      change (s.setPhase w .entered).phase w = .entered
      rw [phase_setPhase, if_pos rfl]
  | workerRelock w =>
      apply MutexMoves.takes rfl
      right
      change (s.setPhase w .reentered).phase w = .reentered
      rw [phase_setPhase, if_pos rfl]
  | shutdownLock c =>
      apply MutexMoves.takes rfl
      have hCall :
          (s.next (.shutdownLock c)).calls c =
            { s.calls c with phase := .locked } :=
        Function.update_self ..
      exact congrArg ShutdownCall.phase hCall
  | postAppend t
  | workerEnter w
  | workerRecheck w
  | shutdownSetFlag c =>
      exact .gives rfl
  | release actor =>
      rcases s.next_release actor with
        ⟨calls, n, d, hEq⟩
      refine .same ?_ (fun _ => rfl) (by simp) (by simp)
      rw [hEq]
  | workerReleaseUserData w t =>
      rcases s.next_workerReleaseUserData w t with
        ⟨p, calls, n, d, hEq⟩
      refine .same ?_ (fun _ => rfl) (by simp) (by simp)
      rw [hEq]
      rfl
  | _ => exact .same rfl (fun _ => rfl) (by simp) (by simp)

/- Who is inside leaves with a step that gives the mutex up. -/
theorem inside_of_next
    (hFresh : s.Fresh)
    (hEnabled : s.Enabled l)
    (hWorker : ∀ w, l.leaves w = false)
    (hPoster : ∀ t, l ≠ .postAppend t)
    (hShutdown : ∀ c, l ≠ .shutdownSetFlag c)
    {owner : MutexOwner W}
    (hInside : s.Inside owner) :
    (s.next l).Inside owner := by
  cases owner with
  | worker w =>
      have hPhaseEq :
          (s.next l).phase w =
            ((s.next l).workers w).phase := rfl
      cases worker_of_next hEnabled w with
      | same hSame =>
          change
            ((s.next l).workers w).phase = _ ∨
              ((s.next l).workers w).phase = _
          rw [hSame]
          exact hInside
      | advances hStep _ =>
          exfalso
          cases hStep with
          | waits hChecks _ _
          | leaves hChecks _ _
          | takes hChecks _ =>
              have hLeaves := hChecks.leaves
              rw [hWorker w] at hLeaves
              cases hLeaves
          | woken hPhase
          | lock hPhase
          | relock hPhase
          | starts hPhase
          | finishes hPhase
          | releasesUserData hPhase
          | releasesTask hPhase =>
              rcases hInside with hBad | hBad <;>
                rw [hPhase] at hBad <;> cases hBad
  | poster t =>
      have hLocked : s.posts t = .locked := hInside
      change (s.next l).posts t = .locked
      rcases post_of_next (s := s) (l := l) t with
        hSame | ⟨hSelf, _, _⟩ | ⟨_, hPhase⟩ | ⟨hStep, _⟩ |
          ⟨hStep, _⟩ | ⟨⟨woken, hStep⟩, _⟩
      · rw [hSame]
        exact hLocked
      · rw [hFresh.posts t (le_of_eq hSelf.symm)] at hLocked
        cases hLocked
      · exact hPhase
      · exact absurd hStep (hPoster t)
      · subst hStep
        have hBad : s.posts t = .appended := hEnabled
        rw [hLocked] at hBad
        cases hBad
      · subst hStep
        have hBad := hEnabled.1
        rw [hLocked] at hBad
        cases hBad
  | shutdown c =>
      have hLocked : (s.calls c).phase = .locked := hInside
      change ((s.next l).calls c).phase = .locked
      cases call_of_next hEnabled c with
      | same hSame =>
          rw [hSame]
          exact hLocked
      | begins hSelf _ _ _ =>
          rw [hFresh.calls c (le_of_eq hSelf.symm)] at hLocked
          cases hLocked
      | advances hStep hAfter =>
          cases hStep with
          | lock => rw [hAfter]
          | setFlag => exact absurd rfl (hShutdown c)
          | notifyAll =>
              have hBad : (s.calls c).phase = .notifying :=
                hEnabled
              rw [hLocked] at hBad
              cases hBad
          | join hPhase _ _ =>
              rw [hLocked] at hPhase
              cases hPhase
          | clear hPhase =>
              rw [hLocked] at hPhase
              cases hPhase

theorem Owned.next
    (hOwned : s.Owned)
    (hFresh : s.Fresh)
    (hEnabled : s.Enabled l) :
    (s.next l).Owned := by
  intro owner hOwner
  cases mutex_of_next (s := s) (l := l) with
  | same hSame hWorker hPoster hShutdown =>
      rw [hSame] at hOwner
      exact
        inside_of_next hFresh hEnabled hWorker hPoster hShutdown
          (hOwned owner hOwner)
  | takes hMutex hInside =>
      rw [hMutex] at hOwner
      cases hOwner
      exact hInside
  | gives hMutex =>
      rw [hMutex] at hOwner
      cases hOwner

/- The step with which a thread leaves the critical section. -/
def exit
    (s : KWorkerPool W) : MutexOwner W → PoolStep W
| .worker w =>
    if s.phase w = .entered then .workerEnter w
    else .workerRecheck w
| .poster t => .postAppend t
| .shutdown c => .shutdownSetFlag c

theorem Inside.exits
    {owner : MutexOwner W}
    (hInside : s.Inside owner) :
    s.Enabled (s.exit owner) ∧
      (s.next (s.exit owner)).mutex = none := by
  cases owner with
  | poster t => exact ⟨hInside, rfl⟩
  | shutdown c => exact ⟨hInside, rfl⟩
  | worker w =>
      rcases hInside with hEntered | hReentered
      · have hExit : s.exit (.worker w) = .workerEnter w :=
          if_pos hEntered
        rw [hExit]
        exact ⟨hEntered, rfl⟩
      · have hExit : s.exit (.worker w) = .workerRecheck w := by
          apply if_neg
          rw [hReentered]
          nofun
        rw [hExit]
        exact ⟨hReentered, rfl⟩

end KWorkerPool

end KDoth

------------------------------------------------------------
-- References of Tasks to the Pool
------------------------------------------------------------

namespace KDoth

namespace KWorkerPool

variable {W : Nat}
variable {s s' : KWorkerPool W}
variable {l : PoolStep W}

/- The tasks whose user data is the pool. -/
def pins (s : KWorkerPool W) : Finset Nat :=
  (Finset.range s.nextTask).filter
    (fun t => (s.task t).userData = some .pool)

/- The references of tasks to the pool are counted. -/
def Pinned (s : KWorkerPool W) : Prop :=
  s.pinned = s.pins.card

/- A step that changes no user data. -/
theorem pins_of_kept
    (hNext : (s.next l).nextTask = s.nextTask)
    (hKept :
      ∀ t,
        ((s.next l).task t).userData = (s.task t).userData) :
    (s.next l).pins = s.pins := by
  unfold pins
  rw [hNext]
  apply Finset.filter_congr
  intro t _
  rw [hKept t]

/- Posts and the release of user data change the count. -/
theorem pinned_of_next
    (hBegin : ∀ o, l ≠ .postBegin o)
    (hClear : ∀ w t, l ≠ .workerReleaseUserData w t) :
    (s.next l).pinned = s.pinned := by
  cases l with
  | postBegin o => exact absurd rfl (hBegin o)
  | workerReleaseUserData w t => exact absurd rfl (hClear w t)
  | release actor =>
      rcases s.next_release actor with
        ⟨calls, n, d, hEq⟩
      rw [hEq]
  | workerEnter w =>
      rcases s.next_workerEnter w with
        ⟨workers, tasks, d, hEq⟩
      rw [hEq]
  | workerRecheck w =>
      rcases s.next_workerRecheck w with
        ⟨workers, tasks, d, hEq⟩
      rw [hEq]
  | _ => rfl

/- User data that is released is the pool or is not. -/
theorem pinned_of_clear
    (w : Fin W)
    (t : Nat) :
    (s.next (.workerReleaseUserData w t)).pinned =
      if (s.task t).userData = some .pool then s.pinned - 1
      else s.pinned := by
  by_cases hPool : (s.task t).userData = some .pool
  · rcases deInitIfLast_frame
        { s.clearTask w t with pinned := s.pinned - 1 }
        (some w) with
      ⟨calls, n, d, hEq⟩
    rw [next, releaseUserData, if_pos hPool, if_pos hPool, hEq]
  · rw [next, releaseUserData, if_neg hPool, if_neg hPool]
    rfl

theorem pins_of_begin
    (o : Option UserData) :
    (s.next (.postBegin o)).pins =
      if o = some .pool then insert s.nextTask s.pins
      else s.pins := by
  have hSelf :
      (s.next (.postBegin o)).task s.nextTask =
        { task := true, userData := o, refCount := 1 } :=
    Function.update_self ..
  have hNew : (s.next (.postBegin o)).nextTask = s.nextTask + 1 :=
    rfl
  have hOthers :
      (Finset.range s.nextTask).filter
          (fun t =>
            ((s.next (.postBegin o)).task t).userData =
              some .pool) =
        s.pins := by
    apply Finset.filter_congr
    intro t hOld
    have hNe : t ≠ s.nextTask :=
      ne_of_lt (Finset.mem_range.mp hOld)
    have hTask :
        (s.next (.postBegin o)).task t = s.task t :=
      Function.update_of_ne hNe ..
    rw [hTask]
  unfold pins at hOthers ⊢
  rw [hNew, Finset.range_add_one, Finset.filter_insert, hSelf,
    hOthers]

/- The user data of a task that is cleared goes. -/
theorem pins_of_clear
    {w : Fin W}
    {t : Nat}
    (hTask :
      (s.next (.workerReleaseUserData w t)).task =
        Function.update s.task t
          { s.task t with task := false, userData := none })
    (hNext :
      (s.next (.workerReleaseUserData w t)).nextTask =
        s.nextTask) :
    (s.next (.workerReleaseUserData w t)).pins =
      s.pins.erase t := by
  unfold pins
  rw [hNext, hTask]
  ext u
  rw [Finset.mem_erase, Finset.mem_filter, Finset.mem_filter]
  by_cases hSelf : u = t
  · subst hSelf
    simp
  · simp [hSelf]

theorem pins_destroy_subset :
    (s.next .destroy).pins ⊆ s.pins := by
  intro t hMem
  rcases Finset.mem_filter.mp hMem with ⟨hOld, hPool⟩
  apply Finset.mem_filter.mpr
  refine ⟨hOld, ?_⟩
  by_cases hIn : t ∈ s.tasks
  · have hTask :
        (s.next .destroy).task t = (s.task t).release :=
      if_pos hIn
    rw [hTask, KWorkerPoolTask.release] at hPool
    split at hPool
    · cases hPool
    · exact hPool
  · have hTask : (s.next .destroy).task t = s.task t :=
      if_neg hIn
    rwa [hTask] at hPool

theorem mem_pins
    (hReleased : s.Released)
    {t : Nat}
    (hPool : (s.task t).userData = some .pool) :
    t ∈ s.pins := by
  apply Finset.mem_filter.mpr
  refine ⟨?_, hPool⟩
  have hRetained := ((hReleased.userData t .pool).mp hPool).1
  exact Finset.mem_range.mpr (hReleased.known _ hRetained)

/- A task whose user data is the pool has a reference. -/
theorem Pinned.pos
    (hPinned : s.Pinned)
    (hReleased : s.Released)
    {t : Nat}
    (hPool : (s.task t).userData = some .pool) :
    0 < s.pinned := by
  rw [hPinned]
  exact Finset.card_pos.mpr ⟨t, mem_pins hReleased hPool⟩

theorem Pinned.next
    (hPinned : s.Pinned)
    (hSettled : s.Settled)
    (hEnabled : s.Enabled l) :
    (s.next l).Pinned := by
  have hReleased := hSettled.released
  unfold Pinned at hPinned ⊢
  cases task_of_next hEnabled with
  | same _ hClear _ _ hTask _ _ hNext _ =>
      have hBegin : ∀ o, l ≠ .postBegin o := by
        rintro o rfl
        have hMore :
            (s.next (.postBegin o)).nextTask = s.nextTask + 1 :=
          rfl
        omega
      rw [pinned_of_next hBegin hClear,
        pins_of_kept hNext (fun t => by rw [hTask]), hPinned]
  | @begins o hStep =>
      subst hStep
      have hCount :
          (s.next (.postBegin o)).pinned =
            s.pinned + (if o = some .pool then 1 else 0) := rfl
      rw [hCount, pins_of_begin, hPinned]
      by_cases hPool : o = some .pool
      · rw [if_pos hPool, if_pos hPool,
          Finset.card_insert_of_notMem]
        simp [pins]
      · rw [if_neg hPool, if_neg hPool, Nat.add_zero]
  | @appends u hStep =>
      subst hStep
      rw [pinned_of_next (l := .postAppend u) nofun nofun,
        pins_of_kept rfl (userData_append u), hPinned]
  | @releases u hStep hTask _ _ hNext _ =>
      rcases hReleased.lastRelease_nil hSettled.placed
          hSettled.counted hEnabled hStep with ⟨_, hData⟩
      have hKept := userData_release hTask hData
      have hOther :
          (s.next l).pinned = s.pinned := by
        rcases hStep with rfl | ⟨w, rfl⟩
        · exact pinned_of_next nofun nofun
        · exact pinned_of_next nofun nofun
      rw [hOther, pins_of_kept hNext hKept, hPinned]
  | @clears w u hStep hTask _ _ hNext _ =>
      subst hStep
      rw [pinned_of_clear, pins_of_clear hTask hNext, hPinned]
      by_cases hPool : (s.task u).userData = some .pool
      · rw [if_pos hPool,
          Finset.card_erase_of_mem (mem_pins hReleased hPool)]
      · rw [if_neg hPool, Finset.erase_eq_of_notMem]
        intro hMem
        exact hPool (Finset.mem_filter.mp hMem).2
  | destroys hStep =>
      subst hStep
      -- No reference is left, so no user data is the pool.
      have hNone : s.pins = ∅ := by
        rw [← Finset.card_eq_zero, ← hPinned]
        rcases hEnabled with ⟨_, c, _, hDeInit, _⟩
        have hZero :=
          hSettled.placed.closed.count (by rw [hDeInit]; simp)
        unfold refCount at hZero
        omega
      have hAfter : (s.next .destroy).pins = ∅ := by
        rw [← Finset.subset_empty, ← hNone]
        exact pins_destroy_subset
      rw [pinned_of_next (l := .destroy) nofun nofun, hAfter,
        hPinned, hNone]

end KWorkerPool

end KDoth

------------------------------------------------------------
-- Joins in Progress
------------------------------------------------------------

namespace KDoth

namespace KWorkerPool

variable {W : Nat}
variable {s s' : KWorkerPool W}
variable {l : PoolStep W}

/- A call that joins has set the flag and woken all. -/
structure Woken (s : KWorkerPool W) : Prop where
  flagged : ∀ c, (s.calls c).phase.Past → s.shutdown = true
  joining :
    ∀ c i n,
      (s.calls c).phase = .joining i n →
        n ≤ W ∧ ∀ w, s.phase w ≠ .waiting

/- A call that joins did so before, or has woken all. -/
theorem joining_of_next
    (hEnabled : s.Enabled l)
    {c i n : Nat}
    (hJoining : ((s.next l).calls c).phase = .joining i n) :
    (∃ j, (s.calls c).phase = .joining j n) ∨
      (l = .shutdownNotifyAll c ∧
        n = if s.cleared = true then 0 else W) := by
  cases call_of_next hEnabled c with
  | same hSame =>
      rw [hSame] at hJoining
      exact .inl ⟨i, hJoining⟩
  | begins _ hPhase _ _ =>
      rw [hPhase] at hJoining
      cases hJoining
  | advances hStep hAfter =>
      rw [hAfter] at hJoining
      cases hStep with
      | notifyAll =>
          cases hJoining
          exact .inr ⟨rfl, rfl⟩
      | join hPhase _ _ =>
          cases hJoining
          exact .inl ⟨_, hPhase⟩
      | _ => cases hJoining

theorem Woken.next
    (hWoken : s.Woken)
    (hEnabled : s.Enabled l) :
    (s.next l).Woken := by
  constructor
  · exact flagged_next hEnabled hWoken.flagged
  · intro c i n hJoining
    rcases joining_of_next hEnabled hJoining with
      ⟨j, hBefore⟩ | ⟨rfl, hCount⟩
    · rcases hWoken.joining c j n hBefore with ⟨hBound, hUp⟩
      refine ⟨hBound, ?_⟩
      intro w hWaiting
      rcases waiting_of_next hEnabled hWaiting with
        hOld | ⟨_, hClear⟩
      · exact hUp w hOld
      · have hSet : s.shutdown = true := by
          apply hWoken.flagged c
          rw [hBefore]
          trivial
        rw [hSet] at hClear
        cases hClear
    · refine ⟨?_, fun w => not_waiting_of_notifyAll c w⟩
      rw [hCount]
      split
      · exact Nat.zero_le _
      · exact le_rfl

/- What holds in every state of a pool with workers. -/
structure Regular (s : KWorkerPool W) : Prop where
  settled : s.Settled
  awakened : s.Awakened
  owned : s.Owned
  pinned : s.Pinned
  woken : s.Woken

theorem Regular.new : (new W).Regular := by
  constructor
  · exact .new
  · constructor
    · intro _ hTasks
      exact absurd rfl hTasks
    · intro hFlag
      cases hFlag
  · intro owner hOwner
    cases hOwner
  · rfl
  · constructor
    · intro c hPast
      exact hPast.elim
    · intro c i n hJoining
      cases hJoining

theorem Regular.of_reachable
    (hPos : 0 < W)
    (hReach : (workerPool W).Reachable s) :
    s.Regular := by
  have hBoth : (workerPool W).Reachable s ∧ s.Regular := by
    apply hReach.invariant
    · intro s hInit
      refine ⟨.init hInit, ?_⟩
      rw [hInit]
      exact .new
    · intro s l s' hBoth hStep
      rcases hBoth with ⟨hReach, hRegular⟩
      have hReach' := hReach.step trivial hStep
      rcases step_inv hStep with ⟨hEnabled, rfl⟩
      have hFresh := hRegular.settled.placed.fresh
      refine ⟨hReach', ?_⟩
      exact
        { settled := .of_reachable hReach'
          awakened := hRegular.awakened.next hPos hFresh hEnabled
          owned := hRegular.owned.next hFresh hEnabled
          pinned := hRegular.pinned.next hRegular.settled hEnabled
          woken := hRegular.woken.next hEnabled }
  exact hBoth.2

end KWorkerPool

end KDoth
