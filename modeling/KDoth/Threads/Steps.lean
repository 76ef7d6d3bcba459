import KDoth.Threads.KWorkerPool

/-
  What a step of the worker pool can do to the flag, to the
  list of tasks, to the posts, to the shutdown calls and to
  the workers.
  Every invariant of the pool is derived from these facts.

  Key definitions include:
    * `KWorkerPool.Fresh`

  Key theorems include:
    * `KWorkerPool.shutdown_of_next`
    * `KWorkerPool.queue_of_next`
    * `KWorkerPool.post_of_next`
    * `KWorkerPool.call_of_next`
    * `KWorkerPool.Fresh.next`
-/

------------------------------------------------------------
-- Critical Sections of Workers
------------------------------------------------------------

namespace KDoth

namespace KWorkerPool

variable {W : Nat}

/- Only the worker, the list and its record are changed. -/
theorem waitOrTake_frame
    (s : KWorkerPool W)
    (w : Fin W) :
    ∃ workers tasks dequeued,
      s.waitOrTake w =
        { s with
          workers := workers
          tasks := tasks
          dequeued := dequeued } := by
  rcases s.waitOrTake_cases w with
    ⟨_, _, hEq⟩ | ⟨_, _, hEq⟩ | ⟨t, rest, _, hEq⟩
  · exact ⟨_, s.tasks, s.dequeued, hEq⟩
  · exact ⟨_, s.tasks, s.dequeued, hEq⟩
  · exact ⟨_, rest, _, hEq⟩

theorem next_workerEnter
    (s : KWorkerPool W)
    (w : Fin W) :
    ∃ workers tasks dequeued,
      s.next (.workerEnter w) =
        { s with
          workers := workers
          tasks := tasks
          dequeued := dequeued
          mutex := none } := by
  rcases (s.readFlag w).waitOrTake_frame w with
    ⟨workers, tasks, dequeued, hEq⟩
  refine ⟨workers, tasks, dequeued, ?_⟩
  rw [next, hEq]
  rfl

theorem next_workerRecheck
    (s : KWorkerPool W)
    (w : Fin W) :
    ∃ workers tasks dequeued,
      s.next (.workerRecheck w) =
        { s with
          workers := workers
          tasks := tasks
          dequeued := dequeued
          mutex := none } := by
  rcases s.waitOrTake_frame w with
    ⟨workers, tasks, dequeued, hEq⟩
  refine ⟨workers, tasks, dequeued, ?_⟩
  rw [next, hEq]
  rfl

end KWorkerPool

end KDoth

------------------------------------------------------------
-- References Given Up
------------------------------------------------------------

namespace KDoth

namespace KWorkerPool

variable {W : Nat}

/- The last reference of a client begins a deinitialization. -/
theorem next_release
    (s : KWorkerPool W)
    (actor : Option (Fin W)) :
    ∃ calls nextCall deInit,
      s.next (.release actor) =
        { s with
          clients := s.clients - 1
          calls := calls
          nextCall := nextCall
          deInit := deInit } :=
  deInitIfLast_frame { s with clients := s.clients - 1 } actor

/- That of a task does the same, after the task is cleared. -/
theorem next_workerReleaseUserData
    (s : KWorkerPool W)
    (w : Fin W)
    (t : Nat) :
    ∃ pinned calls nextCall deInit,
      s.next (.workerReleaseUserData w t) =
        { s.clearTask w t with
          pinned := pinned
          calls := calls
          nextCall := nextCall
          deInit := deInit } :=
  s.releaseUserData_frame w t

end KWorkerPool

end KDoth

------------------------------------------------------------
-- The Flag
------------------------------------------------------------

namespace KDoth

namespace KWorkerPool

variable {W : Nat}
variable {s : KWorkerPool W}
variable {l : PoolStep W}

/- The flag is set by a shutdown call and never cleared. -/
theorem shutdown_of_next :
    (s.next l).shutdown = s.shutdown ∨
      ∃ c,
        l = .shutdownSetFlag c ∧ (s.next l).shutdown = true := by
  cases l with
  | shutdownSetFlag c => exact .inr ⟨c, rfl, rfl⟩
  | release actor =>
      rcases s.next_release actor with
        ⟨calls, n, d, hEq⟩
      left
      rw [hEq]
  | workerReleaseUserData w t =>
      rcases s.next_workerReleaseUserData w t with
        ⟨p, calls, n, d, hEq⟩
      left
      rw [hEq]
      rfl
  | workerEnter w =>
      rcases s.next_workerEnter w with
        ⟨workers, tasks, d, hEq⟩
      left
      rw [hEq]
  | workerRecheck w =>
      rcases s.next_workerRecheck w with
        ⟨workers, tasks, d, hEq⟩
      left
      rw [hEq]
  | _ => exact .inl rfl

theorem shutdown_next
    (hFlag : s.shutdown = true) :
    (s.next l).shutdown = true := by
  rcases shutdown_of_next (s := s) (l := l) with
    hEq | ⟨c, _, hSet⟩
  · rw [hEq]
    exact hFlag
  · exact hSet

end KWorkerPool

end KDoth

------------------------------------------------------------
-- The Task List
------------------------------------------------------------

namespace KDoth

namespace KWorkerPool

variable {W : Nat}
variable {s : KWorkerPool W}
variable {l : PoolStep W}

/- What can happen to the list and to its record. -/
inductive QueueMoves
    (s : KWorkerPool W)
    (l : PoolStep W) : Prop
| same
    (hAppend : ∀ t, l ≠ .postAppend t)
    (hDestroy : l ≠ .destroy)
    (hTasks : (s.next l).tasks = s.tasks)
    (hDequeued : (s.next l).dequeued = s.dequeued)
    (hAccepted : (s.next l).accepted = s.accepted)
    (hDropped : (s.next l).dropped = s.dropped)
| appends {t : Nat}
    (hStep : l = .postAppend t)
    (hTasks : (s.next l).tasks = s.tasks ++ [t])
    (hDequeued : (s.next l).dequeued = s.dequeued)
    (hAccepted : (s.next l).accepted = s.accepted ++ [t])
    (hDropped : (s.next l).dropped = s.dropped)
| takes {w : Fin W} {t : Nat} {rest : List Nat}
    (hStep : l = .workerEnter w ∨ l = .workerRecheck w)
    (hBefore : s.tasks = t :: rest)
    (hTasks : (s.next l).tasks = rest)
    (hPhase : (s.next l).phase w = .taken t)
    (hDequeued :
      (s.next l).dequeued = s.dequeued ++ [(t, w)])
    (hAccepted : (s.next l).accepted = s.accepted)
    (hDropped : (s.next l).dropped = s.dropped)
| destroys
    (hStep : l = .destroy)
    (hTasks : (s.next l).tasks = [])
    (hDequeued : (s.next l).dequeued = s.dequeued)
    (hAccepted : (s.next l).accepted = s.accepted)
    (hDropped : (s.next l).dropped = s.tasks)

/-
  A step keeps the list, appends the task of a post, gives
  the first task to a worker or destroys the list.
-/
theorem queue_of_next : s.QueueMoves l := by
  cases l with
  | postAppend t => exact .appends rfl rfl rfl rfl rfl
  | destroy => exact .destroys rfl rfl rfl rfl rfl
  | workerEnter w =>
      rcases (s.readFlag w).waitOrTake_cases w with
        ⟨_, _, hEq⟩ | ⟨_, _, hEq⟩ | ⟨t, rest, hTasks, hEq⟩
      · refine .same nofun nofun ?_ ?_ ?_ ?_ <;>
          rw [next, hEq] <;> rfl
      · refine .same nofun nofun ?_ ?_ ?_ ?_ <;>
          rw [next, hEq] <;> rfl
      · have hHead : s.tasks = t :: rest := hTasks
        refine .takes (.inl rfl) hHead ?_ ?_ ?_ ?_ ?_
        · rw [next, hEq]
          rfl
        · rw [next, hEq]
          change
            ((s.readFlag w).setPhase w (.taken t)).phase w = _
          rw [phase_setPhase, if_pos rfl]
        all_goals
          rw [next, hEq]
          rfl
  | workerRecheck w =>
      rcases s.waitOrTake_cases w with
        ⟨_, _, hEq⟩ | ⟨_, _, hEq⟩ | ⟨t, rest, hTasks, hEq⟩
      · refine .same nofun nofun ?_ ?_ ?_ ?_ <;>
          rw [next, hEq] <;> rfl
      · refine .same nofun nofun ?_ ?_ ?_ ?_ <;>
          rw [next, hEq] <;> rfl
      · refine .takes (.inr rfl) hTasks ?_ ?_ ?_ ?_ ?_
        · rw [next, hEq]
          rfl
        · rw [next, hEq]
          change (s.setPhase w (.taken t)).phase w = _
          rw [phase_setPhase, if_pos rfl]
        all_goals
          rw [next, hEq]
          rfl
  | release actor =>
      rcases s.next_release actor with
        ⟨calls, n, d, hEq⟩
      refine .same nofun nofun ?_ ?_ ?_ ?_ <;> rw [hEq]
  | workerReleaseUserData w t =>
      rcases s.next_workerReleaseUserData w t with
        ⟨p, calls, n, d, hEq⟩
      refine .same nofun nofun ?_ ?_ ?_ ?_ <;>
        rw [hEq] <;> rfl
  | _ => exact .same nofun nofun rfl rfl rfl rfl

end KWorkerPool

end KDoth

------------------------------------------------------------
-- Posts
------------------------------------------------------------

namespace KDoth

namespace KWorkerPool

variable {W : Nat}
variable {s : KWorkerPool W}
variable {l : PoolStep W}

theorem update_cases
    {α : Type}
    (f : Nat → α)
    (i : Nat)
    (a : α)
    (j : Nat) :
    Function.update f i a j = f j ∨
      (j = i ∧ Function.update f i a j = a) := by
  by_cases hEq : j = i
  · subst hEq
    exact .inr ⟨rfl, Function.update_self ..⟩
  · exact .inl (Function.update_of_ne hEq ..)

/- A post is left alone or takes its next step. -/
theorem post_of_next (t : Nat) :
    (s.next l).posts t = s.posts t ∨
      (t = s.nextTask ∧ (∃ o, l = .postBegin o) ∧
        (s.next l).posts t = .prepared) ∨
      (l = .postLock t ∧ (s.next l).posts t = .locked) ∨
      (l = .postAppend t ∧ (s.next l).posts t = .appended) ∨
      (l = .postReleaseTask t ∧
        (s.next l).posts t = .notifying) ∨
      ((∃ woken, l = .postNotify t woken) ∧
        (s.next l).posts t = .returned) := by
  cases l with
  | postBegin o =>
      rcases update_cases s.posts s.nextTask .prepared t with
        hSame | ⟨hSelf, hNew⟩
      · exact .inl hSame
      · exact .inr (.inl ⟨hSelf, ⟨o, rfl⟩, hNew⟩)
  | postLock u =>
      rcases update_cases s.posts u .locked t with
        hSame | ⟨rfl, hNew⟩
      · exact .inl hSame
      · exact .inr (.inr (.inl ⟨rfl, hNew⟩))
  | postAppend u =>
      rcases update_cases s.posts u .appended t with
        hSame | ⟨rfl, hNew⟩
      · exact .inl hSame
      · exact .inr (.inr (.inr (.inl ⟨rfl, hNew⟩)))
  | postReleaseTask u =>
      rcases update_cases s.posts u .notifying t with
        hSame | ⟨rfl, hNew⟩
      · exact .inl hSame
      · exact .inr (.inr (.inr (.inr (.inl ⟨rfl, hNew⟩))))
  | postNotify u woken =>
      rcases update_cases s.posts u .returned t with
        hSame | ⟨rfl, hNew⟩
      · exact .inl hSame
      · exact
          .inr (.inr (.inr (.inr (.inr ⟨⟨woken, rfl⟩, hNew⟩))))
  | release actor =>
      rcases s.next_release actor with
        ⟨calls, n, d, hEq⟩
      left
      rw [hEq]
  | workerReleaseUserData w u =>
      rcases s.next_workerReleaseUserData w u with
        ⟨p, calls, n, d, hEq⟩
      left
      rw [hEq]
      rfl
  | workerEnter w =>
      rcases s.next_workerEnter w with
        ⟨workers, tasks, d, hEq⟩
      left
      rw [hEq]
  | workerRecheck w =>
      rcases s.next_workerRecheck w with
        ⟨workers, tasks, d, hEq⟩
      left
      rw [hEq]
  | _ => exact .inl rfl

end KWorkerPool

end KDoth

------------------------------------------------------------
-- Shutdown Calls
------------------------------------------------------------

namespace KDoth

namespace KWorkerPool

variable {W : Nat}
variable {s : KWorkerPool W}
variable {l : PoolStep W}

/- The next step of a shutdown call, with its phase after. -/
inductive Advances
    (s : KWorkerPool W)
    (c : Nat) : PoolStep W → ShutdownPhase → Prop
| lock :
    Advances s c (.shutdownLock c) .locked
| setFlag :
    Advances s c (.shutdownSetFlag c) .notifying
| notifyAll :
    Advances s c (.shutdownNotifyAll c)
      (.joining 0 (if s.cleared = true then 0 else W))
| join {w : Fin W} {n : Nat}
    (hPhase : (s.calls c).phase = .joining w.val n)
    (hBound : w.val < n)
    (hReturns : s.JoinReturns c w) :
    Advances s c (.shutdownJoin c w) (.joining (w.val + 1) n)
| clear {n : Nat}
    (hPhase : (s.calls c).phase = .joining n n) :
    Advances s c (.shutdownClear c) .returned

/- What can happen to a shutdown call in a step. -/
inductive CallMoves
    (s : KWorkerPool W)
    (l : PoolStep W)
    (c : Nat) : Prop
| same
    (hSame : (s.next l).calls c = s.calls c)
| begins
    (hNew : c = s.nextCall)
    (hPhase : ((s.next l).calls c).phase = .entering)
    (hNext : (s.next l).nextCall = s.nextCall + 1)
    (hCount : 0 < s.refCount)
| advances {phase : ShutdownPhase}
    (hStep : s.Advances c l phase)
    (hAfter :
      (s.next l).calls c =
        { s.calls c with phase := phase })

theorem setCall_cases
    (s : KWorkerPool W)
    (u : Nat)
    (phase : ShutdownPhase)
    (c : Nat) :
    (s.setCall u phase).calls c = s.calls c ∨
      (c = u ∧
        (s.setCall u phase).calls c =
          { s.calls c with phase := phase }) := by
  rcases update_cases s.calls u
      { s.calls u with phase := phase } c with
    hSame | ⟨hSelf, hNew⟩
  · exact .inl hSame
  · subst hSelf
    exact .inr ⟨rfl, hNew⟩

theorem calls_of_deInitIfLast
    (actor : Option (Fin W))
    (c : Nat) :
    (s.deInitIfLast actor).calls c = s.calls c ∨
      (c = s.nextCall ∧
        ((s.deInitIfLast actor).calls c).phase = .entering ∧
          (s.deInitIfLast actor).nextCall =
            s.nextCall + 1) := by
  rcases s.deInitIfLast_cases actor with
    ⟨_, hEq⟩ | ⟨_, hEq⟩
  · rw [hEq]
    exact .inl rfl
  · rw [hEq]
    rcases update_cases s.calls s.nextCall
        { caller := actor, phase := .entering } c with
      hSame | ⟨hSelf, hNew⟩
    · exact .inl hSame
    · refine .inr ⟨hSelf, ?_, rfl⟩
      exact congrArg ShutdownCall.phase hNew

/- A call is left alone, begins or takes its next step. -/
theorem call_of_next
    (hEnabled : s.Enabled l)
    (c : Nat) :
    s.CallMoves l c := by
  cases l with
  | release actor =>
      have hHeld := hEnabled.1
      rcases calls_of_deInitIfLast
          (s := { s with clients := s.clients - 1 })
          actor c with
        hSame | ⟨hSelf, hPhase, hNext⟩
      · exact .same hSame
      · have hCount : 0 < s.refCount := by
          unfold refCount
          omega
        exact .begins hSelf hPhase hNext hCount
  | workerReleaseUserData w t =>
      by_cases hPool : (s.task t).userData = some .pool
      · rcases calls_of_deInitIfLast
            (s :=
              { s.clearTask w t with pinned := s.pinned - 1 })
            (some w) c with
          hSame | ⟨hSelf, hPhase, hNext⟩
        · apply CallMoves.same
          rw [next, releaseUserData, if_pos hPool]
          exact hSame
        · have hNew : c = s.nextCall := hSelf
          have hPinned := (hEnabled.2.2 hPool).1
          apply CallMoves.begins hNew
          · rw [next, releaseUserData, if_pos hPool]
            exact hPhase
          · rw [next, releaseUserData, if_pos hPool]
            exact hNext
          · unfold refCount
            omega
      · apply CallMoves.same
        rw [next, releaseUserData, if_neg hPool]
        rfl
  | shutdownBegin caller =>
      rcases update_cases s.calls s.nextCall
          { caller := caller, phase := .entering } c with
        hSame | ⟨hSelf, hNew⟩
      · exact .same hSame
      · exact
          .begins hSelf (congrArg ShutdownCall.phase hNew) rfl
            hEnabled.1
  | shutdownLock u =>
      rcases s.setCall_cases u .locked c with
        hSame | ⟨rfl, hNew⟩
      · exact .same hSame
      · exact .advances .lock hNew
  | shutdownSetFlag u =>
      rcases s.setCall_cases u .notifying c with
        hSame | ⟨rfl, hNew⟩
      · exact .same hSame
      · exact .advances .setFlag hNew
  | shutdownNotifyAll u =>
      rcases s.setCall_cases u
          (.joining 0 (if s.cleared = true then 0 else W)) c with
        hSame | ⟨rfl, hNew⟩
      · exact .same hSame
      · exact .advances .notifyAll hNew
  | shutdownJoin u w =>
      rcases hEnabled with
        ⟨⟨n, hCount, hPhase, hBound⟩, hReturns⟩
      rcases s.setCall_cases u (.joining (w.val + 1) n) c with
        hSame | ⟨rfl, hNew⟩
      · apply CallMoves.same
        rw [next, hPhase]
        exact hSame
      · apply
          CallMoves.advances (.join hPhase hBound hReturns)
        rw [next, hPhase]
        exact hNew
  | shutdownClear u =>
      rcases hEnabled with ⟨n, _, hPhase⟩
      rcases s.setCall_cases u .returned c with
        hSame | ⟨rfl, hNew⟩
      · exact .same hSame
      · exact .advances (.clear hPhase) hNew
  | workerEnter w =>
      rcases s.next_workerEnter w with
        ⟨workers, tasks, d, hEq⟩
      apply CallMoves.same
      rw [hEq]
  | workerRecheck w =>
      rcases s.next_workerRecheck w with
        ⟨workers, tasks, d, hEq⟩
      apply CallMoves.same
      rw [hEq]
  | _ => exact .same rfl

end KWorkerPool

end KDoth

------------------------------------------------------------
-- Workers
------------------------------------------------------------

namespace KDoth

namespace KWorkerPool

variable {W : Nat}
variable {s : KWorkerPool W}
variable {l : PoolStep W}

/- A critical section of a worker, with its flag after. -/
def Checks
    (s : KWorkerPool W)
    (l : PoolStep W)
    (w : Fin W)
    (isRunning : Bool) : Prop :=
  (l = .workerEnter w ∧ s.phase w = .entered ∧
      isRunning = ((s.workers w).isRunning && !s.shutdown)) ∨
    (l = .workerRecheck w ∧ s.phase w = .reentered ∧
      isRunning = (s.workers w).isRunning)

/- The next step of a worker, with its record after. -/
inductive WorkerAdvances
    (s : KWorkerPool W)
    (w : Fin W) : PoolStep W → Worker → Prop
| woken {l : PoolStep W}
    (hPhase : s.phase w = .waiting) :
    WorkerAdvances s w l { s.workers w with phase := .awake }
| lock
    (hPhase : s.phase w = .loop) :
    WorkerAdvances s w (.workerLock w)
      { s.workers w with phase := .entered }
| relock
    (hPhase : s.phase w = .awake) :
    WorkerAdvances s w (.workerRelock w)
      { s.workers w with phase := .reentered }
| waits {l : PoolStep W} {isRunning : Bool}
    (hChecks : s.Checks l w isRunning)
    (hTasks : s.tasks = [])
    (hFlag : s.shutdown = false) :
    WorkerAdvances s w l
      { phase := .waiting, isRunning := isRunning }
| leaves {l : PoolStep W} {isRunning : Bool}
    (hChecks : s.Checks l w isRunning)
    (hTasks : s.tasks = [])
    (hFlag : s.shutdown = true) :
    WorkerAdvances s w l
      { phase := if isRunning = true then .loop else .ended
        isRunning := isRunning }
| takes {l : PoolStep W} {isRunning : Bool}
    {t : Nat} {rest : List Nat}
    (hChecks : s.Checks l w isRunning)
    (hTasks : s.tasks = t :: rest) :
    WorkerAdvances s w l
      { phase := .taken t, isRunning := isRunning }
| starts {t : Nat}
    (hPhase : s.phase w = .taken t) :
    WorkerAdvances s w (.workerStart w t)
      { s.workers w with phase := .running t }
| finishes {t : Nat}
    (hPhase : s.phase w = .running t) :
    WorkerAdvances s w (.workerFinish w t)
      { s.workers w with phase := .ran t }
| releasesUserData {t : Nat}
    (hPhase : s.phase w = .ran t) :
    WorkerAdvances s w (.workerReleaseUserData w t)
      { s.workers w with phase := .released t }
| releasesTask {t : Nat}
    (hPhase : s.phase w = .released t) :
    WorkerAdvances s w (.workerReleaseTask w t)
      { s.workers w with
        phase :=
          if (s.workers w).isRunning = true then .loop
          else .ended }

/- What can happen to a worker in a step. -/
inductive WorkerMoves
    (s : KWorkerPool W)
    (l : PoolStep W)
    (w : Fin W) : Prop
| same
    (hSame : (s.next l).workers w = s.workers w)
| advances {worker : Worker}
    (hStep : s.WorkerAdvances w l worker)
    (hAfter : (s.next l).workers w = worker)

theorem setPhase_cases
    (s : KWorkerPool W)
    (v : Fin W)
    (phase : WorkerPhase)
    (w : Fin W) :
    (s.setPhase v phase).workers w = s.workers w ∨
      (w = v ∧
        (s.setPhase v phase).workers w =
          { s.workers w with phase := phase }) := by
  by_cases hEq : w = v
  · subst hEq
    exact .inr ⟨rfl, Function.update_self ..⟩
  · exact .inl (Function.update_of_ne hEq ..)

theorem wake_cases
    (s : KWorkerPool W)
    (woken : Fin W → Bool)
    (w : Fin W) :
    (s.wake woken).workers w = s.workers w ∨
      (woken w = true ∧
        (s.wake woken).workers w =
          { s.workers w with phase := .awake }) := by
  by_cases hWoken : woken w = true
  · exact .inr ⟨hWoken, if_pos hWoken⟩
  · exact .inl (if_neg hWoken)

theorem waitOrTake_of_ne
    (r : KWorkerPool W)
    {v w : Fin W}
    (hNe : w ≠ v) :
    (r.waitOrTake v).workers w = r.workers w := by
  rcases r.waitOrTake_cases v with
    ⟨_, _, hEq⟩ | ⟨_, _, hEq⟩ | ⟨t, rest, _, hEq⟩
  all_goals
    rw [hEq]
    exact Function.update_of_ne hNe ..

/- A critical section moves the worker that is in it. -/
theorem advances_of_waitOrTake
    {r : KWorkerPool W}
    {w : Fin W}
    (hTasks : r.tasks = s.tasks)
    (hFlag : r.shutdown = s.shutdown)
    (hChecks : s.Checks l w (r.workers w).isRunning) :
    s.WorkerAdvances w l ((r.waitOrTake w).workers w) := by
  rcases r.waitOrTake_cases w with
    ⟨hEmpty, hClear, hEq⟩ | ⟨hEmpty, hSet, hEq⟩ |
      ⟨t, rest, hHead, hEq⟩
  · have hWorker :
        (r.waitOrTake w).workers w =
          { phase := .waiting
            isRunning := (r.workers w).isRunning } := by
      rw [hEq]
      exact Function.update_self ..
    rw [hWorker]
    exact
      .waits hChecks (hTasks ▸ hEmpty) (hFlag ▸ hClear)
  · have hWorker :
        (r.waitOrTake w).workers w =
          { phase :=
              if (r.workers w).isRunning = true then .loop
              else .ended
            isRunning := (r.workers w).isRunning } := by
      rw [hEq]
      exact Function.update_self ..
    rw [hWorker]
    exact .leaves hChecks (hTasks ▸ hEmpty) (hFlag ▸ hSet)
  · have hWorker :
        (r.waitOrTake w).workers w =
          { phase := .taken t
            isRunning := (r.workers w).isRunning } := by
      rw [hEq]
      exact Function.update_self ..
    rw [hWorker]
    exact .takes hChecks (hTasks ▸ hHead)

/- A worker is left alone or takes its next step. -/
theorem worker_of_next
    (hEnabled : s.Enabled l)
    (w : Fin W) :
    s.WorkerMoves l w := by
  cases l with
  | release actor =>
      rcases s.next_release actor with
        ⟨calls, n, d, hEq⟩
      apply WorkerMoves.same
      rw [hEq]
  | postNotify t woken =>
      rcases s.wake_cases woken w with hSame | ⟨hWoken, hNew⟩
      · exact .same hSame
      · exact .advances (.woken (hEnabled.2.1 w hWoken)) hNew
  | shutdownNotifyAll c =>
      rcases s.wake_cases (fun w => s.phase w == .waiting) w with
        hSame | ⟨hWoken, hNew⟩
      · exact .same hSame
      · exact .advances (.woken (by simpa using hWoken)) hNew
  | workerLock v =>
      rcases s.setPhase_cases v .entered w with
        hSame | ⟨rfl, hNew⟩
      · exact .same hSame
      · exact .advances (.lock hEnabled.1) hNew
  | workerRelock v =>
      rcases s.setPhase_cases v .reentered w with
        hSame | ⟨rfl, hNew⟩
      · exact .same hSame
      · exact .advances (.relock hEnabled.1) hNew
  | workerSpurious v =>
      rcases s.setPhase_cases v .awake w with
        hSame | ⟨rfl, hNew⟩
      · exact .same hSame
      · exact .advances (.woken hEnabled) hNew
  | workerStart v t =>
      rcases s.setPhase_cases v (.running t) w with
        hSame | ⟨rfl, hNew⟩
      · exact .same hSame
      · exact .advances (.starts hEnabled) hNew
  | workerFinish v t =>
      rcases s.setPhase_cases v (.ran t) w with
        hSame | ⟨rfl, hNew⟩
      · exact .same hSame
      · exact .advances (.finishes hEnabled.1) hNew
  | workerReleaseUserData v t =>
      rcases s.next_workerReleaseUserData v t with
        ⟨p, calls, n, d, hEq⟩
      have hAfter :
          (s.next (.workerReleaseUserData v t)).workers w =
            (s.setPhase v (.released t)).workers w := by
        rw [hEq]
        rfl
      rcases s.setPhase_cases v (.released t) w with
        hSame | ⟨rfl, hNew⟩
      · exact .same (hAfter.trans hSame)
      · exact
          .advances (.releasesUserData hEnabled.1)
            (hAfter.trans hNew)
  | workerReleaseTask v t =>
      rcases s.setPhase_cases v
          (if (s.workers v).isRunning = true then .loop
          else .ended) w with
        hSame | ⟨rfl, hNew⟩
      · exact .same hSame
      · exact .advances (.releasesTask hEnabled.1) hNew
  | workerEnter v =>
      by_cases hSelf : w = v
      · subst hSelf
        apply WorkerMoves.advances _ rfl
        apply advances_of_waitOrTake
          (s := s) (r := s.readFlag w) rfl rfl
        left
        refine ⟨rfl, hEnabled, ?_⟩
        simp [readFlag]
      · apply WorkerMoves.same
        exact
          ((s.readFlag v).waitOrTake_of_ne hSelf).trans
            (Function.update_of_ne hSelf ..)
  | workerRecheck v =>
      by_cases hSelf : w = v
      · subst hSelf
        apply WorkerMoves.advances _ rfl
        exact
          advances_of_waitOrTake (s := s) (r := s) rfl rfl
            (.inr ⟨rfl, hEnabled, rfl⟩)
      · exact .same (s.waitOrTake_of_ne hSelf)
  | _ => exact .same rfl

end KWorkerPool

end KDoth

------------------------------------------------------------
-- Identifiers
------------------------------------------------------------

namespace KDoth

namespace KWorkerPool

variable {W : Nat}
variable {s : KWorkerPool W}
variable {l : PoolStep W}

/- Identifiers that are not given out yet are not in use. -/
structure Fresh (s : KWorkerPool W) : Prop where
  posts : ∀ t, s.nextTask ≤ t → s.posts t = .idle
  calls : ∀ c, s.nextCall ≤ c → (s.calls c).phase = .idle

theorem nextTask_le :
    s.nextTask ≤ (s.next l).nextTask := by
  cases l with
  | postBegin o => exact Nat.le_succ _
  | release actor =>
      rcases s.next_release actor with
        ⟨calls, n, d, hEq⟩
      rw [hEq]
  | workerReleaseUserData w t =>
      rcases s.next_workerReleaseUserData w t with
        ⟨p, calls, n, d, hEq⟩
      rw [hEq]
      exact le_rfl
  | workerEnter w =>
      rcases s.next_workerEnter w with
        ⟨workers, tasks, d, hEq⟩
      rw [hEq]
  | workerRecheck w =>
      rcases s.next_workerRecheck w with
        ⟨workers, tasks, d, hEq⟩
      rw [hEq]
  | _ => exact le_rfl

theorem nextCall_le_deInitIfLast
    (actor : Option (Fin W)) :
    s.nextCall ≤ (s.deInitIfLast actor).nextCall := by
  rcases s.deInitIfLast_cases actor with
    ⟨_, hEq⟩ | ⟨_, hEq⟩
  · rw [hEq]
  · rw [hEq]
    exact Nat.le_succ _

theorem nextCall_le :
    s.nextCall ≤ (s.next l).nextCall := by
  cases l with
  | shutdownBegin caller => exact Nat.le_succ _
  | release actor =>
      exact
        nextCall_le_deInitIfLast
          (s := { s with clients := s.clients - 1 }) actor
  | workerReleaseUserData w t =>
      by_cases hPool : (s.task t).userData = some .pool
      · rw [next, releaseUserData, if_pos hPool]
        exact
          nextCall_le_deInitIfLast
            (s :=
              { s.clearTask w t with pinned := s.pinned - 1 })
            (some w)
      · rw [next, releaseUserData, if_neg hPool]
        exact le_rfl
  | workerEnter w =>
      rcases s.next_workerEnter w with
        ⟨workers, tasks, d, hEq⟩
      rw [hEq]
  | workerRecheck w =>
      rcases s.next_workerRecheck w with
        ⟨workers, tasks, d, hEq⟩
      rw [hEq]
  | _ => exact le_rfl

/- Only a call in progress takes a step. -/
theorem Advances.active
    {c : Nat}
    {phase : ShutdownPhase}
    (hEnabled : s.Enabled l)
    (hStep : s.Advances c l phase) :
    ¬ ((s.calls c).phase = .idle ∨
      (s.calls c).phase = .returned) := by
  intro hEither
  cases hStep with
  | lock =>
      rcases hEither with hPhase | hPhase <;>
        rw [hEnabled.1] at hPhase <;> cases hPhase
  | setFlag =>
      have hLocked : (s.calls c).phase = .locked := hEnabled
      rcases hEither with hPhase | hPhase <;>
        rw [hLocked] at hPhase <;> cases hPhase
  | notifyAll =>
      have hDue : (s.calls c).phase = .notifying := hEnabled
      rcases hEither with hPhase | hPhase <;>
        rw [hDue] at hPhase <;> cases hPhase
  | join hJoining _ =>
      rcases hEither with hPhase | hPhase <;>
        rw [hJoining] at hPhase <;> cases hPhase
  | clear hJoining =>
      rcases hEither with hPhase | hPhase <;>
        rw [hJoining] at hPhase <;> cases hPhase

theorem Fresh.next
    (hFresh : s.Fresh)
    (hEnabled : s.Enabled l) :
    (s.next l).Fresh := by
  constructor
  · intro t hNew
    have hOld := nextTask_le (s := s) (l := l)
    have hIdle := hFresh.posts t (by omega)
    rcases post_of_next (s := s) (l := l) t with
      hSame | ⟨hSelf, ⟨o, hBegin⟩, _⟩ | ⟨hStep, _⟩ |
        ⟨hStep, _⟩ | ⟨hStep, _⟩ | ⟨⟨woken, hStep⟩, _⟩
    · rw [hSame]
      exact hIdle
    · subst hBegin
      have hNext : s.nextTask + 1 ≤ t := hNew
      omega
    all_goals
      subst hStep
      simp [Enabled, hIdle] at hEnabled
  · intro c hNew
    have hOld := nextCall_le (s := s) (l := l)
    have hIdle := hFresh.calls c (by omega)
    cases call_of_next hEnabled c with
    | same hSame =>
        rw [hSame]
        exact hIdle
    | begins hSelf _ hNext _ =>
        omega
    | advances hStep _ =>
        exact absurd (.inl hIdle) (hStep.active hEnabled)

end KWorkerPool

end KDoth
