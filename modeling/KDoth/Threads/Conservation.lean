import KDoth.Threads.UserData

/-
  Conservation of tasks and of their user data: accepted
  tasks are partitioned in order, and what is retained by a
  post is released exactly once.

  Key definitions include:
    * `KWorkerPool.FromClients`
    * `KWorkerPool.Settled`

  Key theorems include:
    * `KWorkerPool.Settled.of_reachable`
    * `KWorkerPool.tasks_conserved`
-/

------------------------------------------------------------
-- Main Result
------------------------------------------------------------

namespace KDoth

namespace KWorkerPool

variable {W : Nat}
variable {s : KWorkerPool W}
variable {l : PoolStep W}

/-
  The pool is shut down and deinitialized by threads that are
  not its workers.
-/
def FromClients (s : KWorkerPool W) : PoolStep W → Prop
| .shutdownBegin caller => caller = none
| .release actor => s.refCount = 1 → actor = none
| .workerReleaseUserData _ t =>
    (s.task t).userData = some .pool → s.refCount ≠ 1
| _ => True

instance
    (s : KWorkerPool W)
    (l : PoolStep W) :
    Decidable (s.FromClients l) := by
  apply l.casesOn (motive := fun l => Decidable (s.FromClients l)) <;>
    intros <;> unfold FromClients <;> infer_instance

structure Settled (s : KWorkerPool W) : Prop where
  placed : s.Placed
  counted : s.Counted
  released : s.Released

theorem Settled.new : (new W).Settled := by
  constructor
  · exact .new
  · constructor
    · intro t hBad
      rcases hBad with hBad | hBad <;> cases hBad
    · intro t hReferred
      rcases hReferred with hMem | ⟨w, hBad | hBad⟩
      · cases hMem
      · cases hBad
      · cases hBad
  · constructor
    · intro t o
      simp [KWorkerPool.new]
    · exact List.nodup_nil
    · intro p hMem
      cases hMem
    · exact List.nodup_nil
    · intro p hMem
      cases hMem
    · intro t o
      simp [KWorkerPool.new]
    · intro t o hMem
      cases hMem

theorem Settled.of_reachable
    {C : KWorkerPool W → PoolStep W → Prop}
    (hReach : (workerPool W).ReachableWhere C s) :
    s.Settled := by
  apply hReach.invariant
  · intro s hInit
    rw [hInit]
    exact .new
  · intro s l s' hSettled _ hStep
    rcases step_inv hStep with ⟨hEnabled, rfl⟩
    exact
      { placed := hSettled.placed.next hEnabled
        counted := hSettled.counted.next hSettled.placed hEnabled
        released :=
          hSettled.released.next hSettled.placed
            hSettled.counted hEnabled }

/-
  In every reachable state the accepted tasks are, in the
  order in which they were appended, the dequeued ones, those
  in the list and, after the pool was destroyed, those that
  were still in it. A dequeued task belongs to one worker: it
  is held there to be run, or was executed, once. User data is
  retained once, by its post, and released once when the task
  was executed or dropped with the list, and not before.
-/
theorem tasks_conserved
    (hReach :
      (workerPool W).ReachableWhere
        (fun s l => s.FromClients l) s) :
    (s.accepted =
        s.dequeued.map Prod.fst ++ s.tasks ++ s.dropped ∧
      s.accepted.Nodup ∧
      (s.destroyed = false → s.dropped = [])) ∧
    (s.executed.Nodup ∧
      (∀ t ∈ s.executed, ∃ w, (t, w) ∈ s.dequeued) ∧
      ∀ t w,
        (t, w) ∈ s.dequeued →
          (∀ v, (t, v) ∈ s.dequeued → v = w) ∧
            ((s.phase w).pending = some t ↔
              t ∉ s.executed)) ∧
    (∀ t o,
      s.given t = some o →
        s.retained.count (t, o) = 1 ∧
          (s.Gone t → s.released.count (t, o) = 1) ∧
            (¬ s.Gone t → s.released.count (t, o) = 0)) ∧
    ∀ p,
      p ∈ s.retained ∨ p ∈ s.released →
        s.given p.1 = some p.2 := by
  have hSettled := Settled.of_reachable hReach
  have hQueued := hSettled.placed.queued
  have hDispatched := hSettled.placed.dispatched
  have hReleased := hSettled.released
  refine ⟨?_, ?_, ?_, ?_⟩
  · exact ⟨hQueued.order, hQueued.nodup, hQueued.dropped⟩
  · refine
      ⟨hDispatched.nodup, hDispatched.executed, ?_⟩
    intro t w hMem
    refine ⟨fun v hOther => ?_, ?_⟩
    · exact hQueued.worker_unique hOther hMem
    · constructor
      · exact hDispatched.notYet w t
      · intro hNot
        rcases hDispatched.pending w t hMem with
          hExecuted | hPending
        · exact absurd hExecuted hNot
        · exact hPending
  · intro t o hGiven
    have hRetained := (hReleased.given t o).mpr hGiven
    have hIff := hReleased.gone t o hRetained
    refine ⟨?_, ?_, ?_⟩
    · exact
        List.count_eq_one_of_mem
          (List.Nodup.of_map _ hReleased.keys) hRetained
    · intro hGone
      exact
        List.count_eq_one_of_mem hReleased.nodup
          (hIff.mpr hGone)
    · intro hNot
      apply List.count_eq_zero_of_not_mem
      exact fun hIn => hNot (hIff.mp hIn)
  · rintro ⟨t, o⟩ (hIn | hIn)
    · exact (hReleased.given t o).mp hIn
    · exact
        (hReleased.given t o).mp (hReleased.subset _ hIn)

/- A task with an object, posted and executed. -/
theorem tasks_conserved_post :
    ∃ s,
      (workerPool 1).exec (new 1)
          [.postBegin (some (.object 7)), .postLock 0,
            .postAppend 0, .workerLock 0, .workerEnter 0,
            .workerStart 0 0, .workerFinish 0 0,
            .workerReleaseUserData 0 0] = some s ∧
        s.dequeued = [(0, 0)] ∧
          s.released.count (0, .object 7) = 1 := by
  have hMeets :
      (workerPool 1).ExecMeets (fun s l => s.FromClients l)
        (new 1)
        [.postBegin (some (.object 7)), .postLock 0,
          .postAppend 0, .workerLock 0, .workerEnter 0,
          .workerStart 0 0, .workerFinish 0 0,
          .workerReleaseUserData 0 0] := by
    decide
  have hReach :=
    TransitionSystem.reachableWhere_of_exec
      (.init rfl) hMeets rfl
  have hConserved := tasks_conserved hReach
  refine ⟨_, rfl, rfl, ?_⟩
  apply (hConserved.2.2.1 0 (.object 7) rfl).2.1
  right
  refine ⟨List.mem_cons_self, ?_⟩
  decide

end KWorkerPool

end KDoth
