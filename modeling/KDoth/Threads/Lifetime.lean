import KDoth.Threads.Draining

/-
  The lifetime of the pool. The workers use it without a
  reference and rely on its deinitialization to join them.

  Key definitions include:
    * `PoolStep.UsesPool`
    * `KWorkerPool.Outlives`
    * `KWorkerPool.Closing`
    * `KWorkerPool.Outlived`

  Key theorems include:
    * `KWorkerPool.Closing.next`
    * `KWorkerPool.Outlived.next`
    * `KWorkerPool.outlives_workers`
    * `KWorkerPool.worker_uses_freed_pool`
-/

------------------------------------------------------------
-- The Last Release
------------------------------------------------------------

namespace KDoth

/- Steps of workers that go to the pool. -/
def PoolStep.UsesPool {W : Nat} : PoolStep W → Prop
| .workerLock _ => True
| .workerEnter _ => True
| .workerSpurious _ => True
| .workerRelock _ => True
| .workerRecheck _ => True
| _ => False

namespace KWorkerPool

variable {W : Nat}
variable {s : KWorkerPool W}
variable {l : PoolStep W}

/- The workers are past their last use of the pool. -/
def Left (s : KWorkerPool W) : Prop :=
  ∀ w, (s.workers w).capacity = 0

instance (s : KWorkerPool W) : Decidable s.Left := by
  unfold Left
  infer_instance

/- A worker that is through with the pool stays so. -/
theorem capacity_zero_next
    (hEnabled : s.Enabled l)
    {w : Fin W}
    (hZero : (s.workers w).capacity = 0) :
    ((s.next l).workers w).capacity = 0 := by
  have hNot : ∀ isRunning, ¬ s.Checks l w isRunning := by
    intro r hChecks
    have hPhaseEq : s.phase w = (s.workers w).phase := rfl
    rcases hChecks with ⟨_, hPhase, _⟩ | ⟨_, hPhase, _⟩ <;>
      rw [hPhaseEq] at hPhase <;>
      simp [Worker.capacity, hPhase] at hZero
  rw [capacity_of_not_checks hEnabled hNot]
  exact hZero

theorem Left.next
    (hLeft : s.Left)
    (hEnabled : s.Enabled l) :
    (s.next l).Left := fun w =>
  capacity_zero_next hEnabled (hLeft w)

/- Who is through with the pool takes no step that uses it. -/
theorem Left.not_uses
    (hLeft : s.Left)
    (hEnabled : s.Enabled l) :
    ¬ l.UsesPool := by
  have hPhaseEq :
      ∀ w, s.phase w = (s.workers w).phase := fun _ => rfl
  intro hUses
  cases l with
  | workerLock w =>
      have hZero := hLeft w
      have hPhase := hEnabled.1
      rw [hPhaseEq] at hPhase
      simp [Worker.capacity, hPhase] at hZero
  | workerRelock w =>
      have hZero := hLeft w
      have hPhase := hEnabled.1
      rw [hPhaseEq] at hPhase
      simp [Worker.capacity, hPhase] at hZero
  | workerEnter w
  | workerSpurious w
  | workerRecheck w =>
      have hZero := hLeft w
      have hPhase : (s.workers w).phase = _ := hEnabled
      simp [Worker.capacity, hPhase] at hZero
  | _ => exact hUses

/-
  The last reference is given up by a thread that is not a
  worker, and if the pool was shut down before, the workers
  are past their last use of it.
-/
def Outlives (s : KWorkerPool W) : PoolStep W → Prop
| .release actor =>
    s.refCount = 1 →
      actor = none ∧ (s.cleared = true → s.Left)
| .workerReleaseUserData _ t =>
    (s.task t).userData = some .pool → s.refCount ≠ 1
| _ => True

instance
    (s : KWorkerPool W)
    (l : PoolStep W) :
    Decidable (s.Outlives l) := by
  apply l.casesOn (motive := fun l => Decidable (s.Outlives l)) <;>
    intros <;> unfold Outlives <;> infer_instance

/- How a deinitialization begins. -/
inductive DeInitMoves
    (s : KWorkerPool W)
    (l : PoolStep W) : Prop
| same
    (hDeInit : (s.next l).deInit = s.deInit)
| begins {actor : Option (Fin W)}
    (hStep :
      l = .release actor ∨
        ∃ w t,
          l = .workerReleaseUserData w t ∧
            (s.task t).userData = some .pool)
    (hLast : s.refCount = 1)
    (hQuiet : s.Quiet)
    (hDeInit : (s.next l).deInit = some s.nextCall)
    (hCall :
      (s.next l).calls =
        Function.update s.calls s.nextCall
          { caller := actor, phase := .entering })

theorem deInit_of_next
    (hEnabled : s.Enabled l) :
    s.DeInitMoves l := by
  cases l with
  | release actor =>
      rcases hEnabled with ⟨hHeld, hQuiet, _⟩
      rcases deInitIfLast_cases
          { s with clients := s.clients - 1 } actor with
        ⟨_, hEq⟩ | ⟨hZero, hEq⟩
      · apply DeInitMoves.same
        rw [next, hEq]
      · have hLast : s.refCount = 1 := by
          unfold refCount at hZero ⊢
          dsimp only at hZero
          omega
        refine .begins (.inl rfl) hLast (hQuiet hLast) ?_ ?_
        · rw [next, hEq]
        · rw [next, hEq]
          rfl
  | workerReleaseUserData w t =>
      by_cases hPool : (s.task t).userData = some .pool
      · rcases hEnabled.2.2 hPool with ⟨hPinned, hQuiet⟩
        rcases deInitIfLast_cases
            { s.clearTask w t with pinned := s.pinned - 1 }
            (some w) with
          ⟨_, hEq⟩ | ⟨hZero, hEq⟩
        · apply DeInitMoves.same
          rw [next, releaseUserData, if_pos hPool, hEq]
          rfl
        · have hLast : s.refCount = 1 := by
            unfold refCount at hZero ⊢
            change s.clients + (s.pinned - 1) = 0 at hZero
            omega
          have hCause :
              PoolStep.workerReleaseUserData w t =
                  .release (some w) ∨
                ∃ v u,
                  PoolStep.workerReleaseUserData w t =
                      .workerReleaseUserData v u ∧
                    (s.task u).userData = some .pool :=
            Or.inr ⟨w, t, rfl, hPool⟩
          apply DeInitMoves.begins hCause hLast (hQuiet hLast)
          all_goals
            rw [next, releaseUserData, if_pos hPool, hEq]
            rfl
      · apply DeInitMoves.same
        rw [next, releaseUserData, if_neg hPool]
        rfl
  | workerEnter w =>
      rcases s.next_workerEnter w with
        ⟨workers, tasks, d, hEq⟩
      apply DeInitMoves.same
      rw [hEq]
  | workerRecheck w =>
      rcases s.next_workerRecheck w with
        ⟨workers, tasks, d, hEq⟩
      apply DeInitMoves.same
      rw [hEq]
  | _ => exact .same rfl

end KWorkerPool

end KDoth

------------------------------------------------------------
-- The Deinitialization
------------------------------------------------------------

namespace KDoth

namespace KWorkerPool

variable {W : Nat}
variable {s : KWorkerPool W}
variable {l : PoolStep W}

/- The deinitialization waits for the workers, alone. -/
structure Closing (s : KWorkerPool W) (c : Nat) : Prop where
  caller : (s.calls c).caller = none
  others :
    ∀ d,
      d ≠ c →
        (s.calls d).phase = .idle ∨
          (s.calls d).phase = .returned
  joined :
    ∀ w, s.joined w = true → (s.workers w).capacity = 0
  cleared : s.cleared = true → s.Left
  waited :
    s.Waited (fun w => (s.workers w).capacity = 0) c

structure Outlived (s : KWorkerPool W) : Prop where
  marks :
    ∀ w,
      s.joined w = true →
        s.cleared = true ∨
          ∃ c i n, (s.calls c).phase = .joining i n
  closing : ∀ c, s.deInit = some c → s.Closing c
  destroyed : s.destroyed = true → s.Left

theorem capacity_of_phase_ended
    {w : Fin W}
    (hEnded : s.phase w = .ended) :
    (s.workers w).capacity = 0 := by
  have hPhase : (s.workers w).phase = .ended := hEnded
  simp [Worker.capacity, hPhase]

/- Only the join of the deinitialization is in progress. -/
theorem Closing.of_join
    {c d : Nat}
    {w : Fin W}
    (hClosing : s.Closing c)
    (hEnabled : s.Enabled (.shutdownJoin d w)) :
    d = c ∧ (s.workers w).capacity = 0 := by
  rcases hEnabled with ⟨⟨n, _, hPhase, _⟩, hReturns⟩
  have hSame : d = c := by
    by_contra hNe
    rcases hClosing.others d hNe with hBad | hBad <;>
      rw [hPhase] at hBad <;> cases hBad
  subst hSame
  refine ⟨rfl, ?_⟩
  rcases hReturns with
    hCleared | hJoined | hEnded | hSelf | ⟨e, _, hNe, hJoins⟩
  · exact hClosing.cleared hCleared w
  · exact hClosing.joined w hJoined
  · exact capacity_of_phase_ended hEnded
  · rw [hClosing.caller] at hSelf
    cases hSelf
  · rcases hClosing.others e hNe with hBad | hBad <;>
      rw [hBad] at hJoins <;> cases hJoins

theorem Closing.next
    {c : Nat}
    (hClosing : s.Closing c)
    (hEnabled : s.Enabled l)
    (hCount : s.refCount = 0) :
    (s.next l).Closing c := by
  have hActive :
      ∀ {d phase}, s.Advances d l phase → d = c := by
    intro d phase hStep
    by_contra hNe
    exact hStep.active hEnabled (hClosing.others d hNe)
  constructor
  · cases call_of_next hEnabled c with
    | same hSame =>
        rw [hSame]
        exact hClosing.caller
    | begins _ _ _ hPositive => omega
    | advances _ hAfter =>
        rw [hAfter]
        exact hClosing.caller
  · intro d hNe
    cases call_of_next hEnabled d with
    | same hSame =>
        rw [hSame]
        exact hClosing.others d hNe
    | begins _ _ _ hPositive => omega
    | advances hStep _ => exact absurd (hActive hStep) hNe
  · intro w hJoined
    apply capacity_zero_next hEnabled
    rcases joined_of_next hJoined with hBefore | ⟨d, rfl⟩
    · exact hClosing.joined w hBefore
    · exact (hClosing.of_join hEnabled).2
  · intro hCleared
    rcases cleared_of_next (s := s) (l := l) with
      hSame | ⟨d, hStep, _⟩
    · rw [hSame] at hCleared
      exact (hClosing.cleared hCleared).next hEnabled
    · subst hStep
      rcases hEnabled with ⟨n, hCountLe, hPhase⟩
      have hSelf : d = c := hActive (.clear hPhase)
      subst hSelf
      have hLeft : s.Left := hClosing.waited.all_out hPhase
      exact hLeft.next ⟨n, hCountLe, hPhase⟩
  · apply hClosing.waited.next hEnabled
    · exact fun w hZero => capacity_zero_next hEnabled hZero
    · exact hClosing.cleared
    · rintro w rfl
      exact (hClosing.of_join hEnabled).2

/- A mark of a joined thread has its shutdown. -/
theorem Outlived.marks_next
    (hOutlived : s.Outlived)
    (hFresh : s.Fresh)
    (hEnabled : s.Enabled l)
    (w : Fin W)
    (hJoined : (s.next l).joined w = true) :
    (s.next l).cleared = true ∨
      ∃ c i n, ((s.next l).calls c).phase = .joining i n := by
  have hKept :
      s.cleared = true → (s.next l).cleared = true := by
    intro hCleared
    rcases cleared_of_next (s := s) (l := l) with
      hSame | ⟨d, _, hSet⟩
    · rw [hSame]
      exact hCleared
    · exact hSet
  have hCall :
      ∀ {c i n},
        (s.calls c).phase = .joining i n →
          (s.next l).cleared = true ∨
            ∃ c i n,
              ((s.next l).calls c).phase = .joining i n := by
    intro c i n hPhase
    cases call_of_next hEnabled c with
    | same hSame => exact .inr ⟨c, i, n, by rw [hSame, hPhase]⟩
    | begins hSelf _ _ _ =>
        rw [hFresh.calls c (le_of_eq hSelf.symm)] at hPhase
        cases hPhase
    | advances hStep hAfter =>
        cases hStep with
        | lock =>
            rw [hEnabled.1] at hPhase
            cases hPhase
        | setFlag =>
            have hLocked : (s.calls c).phase = .locked :=
              hEnabled
            rw [hLocked] at hPhase
            cases hPhase
        | notifyAll =>
            exact .inr ⟨c, _, _, by rw [hAfter]⟩
        | join _ _ _ => exact .inr ⟨c, _, _, by rw [hAfter]⟩
        | clear _ => exact .inl rfl
  rcases joined_of_next hJoined with hBefore | ⟨c, rfl⟩
  · rcases hOutlived.marks w hBefore with
      hCleared | ⟨c, i, n, hPhase⟩
    · exact .inl (hKept hCleared)
    · exact hCall hPhase
  · rcases hEnabled.1 with ⟨n, _, hPhase, _⟩
    exact hCall hPhase

/- Nothing is marked when the last reference is given up. -/
theorem Outlived.closing_begins
    (hOutlived : s.Outlived)
    (hFresh : s.Fresh)
    (hEnabled : s.Enabled l)
    (hQuiet : s.Quiet)
    (hLeft : s.cleared = true → s.Left)
    (hNoJoin : ∀ c w, l ≠ .shutdownJoin c w)
    (hNoClear : ∀ c, l ≠ .shutdownClear c)
    (hCall :
      (s.next l).calls =
        Function.update s.calls s.nextCall
          { caller := none, phase := .entering }) :
    (s.next l).Closing s.nextCall := by
  have hIdle :
      ∀ d,
        (s.calls d).phase = .idle ∨
          (s.calls d).phase = .returned := by
    intro d
    by_cases hBegun : d < s.nextCall
    · exact .inr (hQuiet.2 d hBegun)
    · exact .inl (hFresh.calls d (by omega))
  have hSelf :
      (s.next l).calls s.nextCall =
        { caller := none, phase := .entering } := by
    rw [hCall, Function.update_self]
  have hBack :
      (s.next l).cleared = true → s.cleared = true := by
    intro hCleared
    rcases cleared_of_next (s := s) (l := l) with
      hSame | ⟨c, hStep, _⟩
    · rw [hSame] at hCleared
      exact hCleared
    · exact absurd hStep (hNoClear c)
  constructor
  · rw [hSelf]
  · intro d hNe
    rw [hCall, Function.update_of_ne hNe]
    exact hIdle d
  · intro w hJoined
    apply capacity_zero_next hEnabled
    rcases joined_of_next hJoined with hBefore | ⟨c, hStep⟩
    · rcases hOutlived.marks w hBefore with
        hCleared | ⟨c, i, n, hPhase⟩
      · exact hLeft hCleared w
      · rcases hIdle c with hBad | hBad <;>
          rw [hPhase] at hBad <;> cases hBad
    · exact absurd hStep (hNoJoin c w)
  · exact fun hCleared => (hLeft (hBack hCleared)).next hEnabled
  · constructor
    · intro i n hJoining
      rw [hSelf] at hJoining
      cases hJoining
    · intro hReturned
      rw [hSelf] at hReturned
      cases hReturned

theorem Outlived.next
    (hOutlived : s.Outlived)
    (hPlaced : s.Placed)
    (hEnabled : s.Enabled l)
    (hOutlives : s.Outlives l) :
    (s.next l).Outlived := by
  constructor
  · exact hOutlived.marks_next hPlaced.fresh hEnabled
  · intro c hDeInit
    cases deInit_of_next hEnabled with
    | same hSame =>
        rw [hSame] at hDeInit
        apply (hOutlived.closing c hDeInit).next hEnabled
        apply hPlaced.closed.count
        rw [hDeInit]
        simp
    | begins hStep hLast hQuiet hNew hCall =>
        rw [hNew] at hDeInit
        cases hDeInit
        rcases hStep with rfl | ⟨w, t, rfl, hPool⟩
        · rcases hOutlives hLast with ⟨rfl, hLeft⟩
          exact
            hOutlived.closing_begins hPlaced.fresh hEnabled
              hQuiet hLeft nofun nofun hCall
        · exact absurd hLast (hOutlives hPool)
  · intro hDestroyed
    by_cases hStep : l = .destroy
    · subst hStep
      rcases hEnabled with ⟨hOpen, c, hBound, hDeInit, hPhase⟩
      have hLeft : s.Left :=
        (hOutlived.closing c hDeInit).waited.returned hPhase
      exact hLeft.next ⟨hOpen, c, hBound, hDeInit, hPhase⟩
    · rw [destroyed_of_next hStep] at hDestroyed
      exact (hOutlived.destroyed hDestroyed).next hEnabled

theorem Outlived.new : (new W).Outlived := by
  constructor
  · intro w hJoined
    cases hJoined
  · intro c hDeInit
    cases hDeInit
  · intro hDestroyed
    cases hDestroyed

end KWorkerPool

end KDoth

------------------------------------------------------------
-- Main Result
------------------------------------------------------------

namespace KDoth

namespace KWorkerPool

variable {W : Nat}
variable {s : KWorkerPool W}

/-
  In every run in which the last reference is given up by a
  thread that is not a worker, and not before the workers are
  through with a pool that was shut down, no worker goes to
  the pool after its members were released, and the
  deinitialization does not run on a worker.
-/
theorem outlives_workers
    (hReach :
      (workerPool W).ReachableWhere
        (fun s l => s.Outlives l) s) :
    (∀ l,
      s.destroyed = true → s.Enabled l → ¬ l.UsesPool) ∧
      ∀ c, s.deInit = some c → (s.calls c).caller = none := by
  have hBoth : s.Placed ∧ s.Outlived := by
    apply hReach.invariant
    · intro s hInit
      rw [hInit]
      exact ⟨.new, .new⟩
    · intro s l s' hBoth hOutlives hStep
      rcases step_inv hStep with ⟨hEnabled, rfl⟩
      exact
        ⟨hBoth.1.next hEnabled,
          hBoth.2.next hBoth.1 hEnabled hOutlives⟩
  refine ⟨?_, ?_⟩
  · intro l hDestroyed hEnabled
    exact (hBoth.2.destroyed hDestroyed).not_uses hEnabled
  · intro c hDeInit
    exact (hBoth.2.closing c hDeInit).caller

/- An idle worker is joined by the release of the pool. -/
theorem outlives_workers_release :
    ∃ s,
      (workerPool 1).exec (new 1)
          [.release none, .shutdownLock 0, .shutdownSetFlag 0,
            .shutdownNotifyAll 0, .workerLock 0,
            .workerEnter 0, .shutdownJoin 0 0,
            .shutdownClear 0, .destroy] = some s ∧
        s.destroyed = true ∧
          ¬ s.Enabled (.workerLock 0) := by
  have hMeets :
      (workerPool 1).ExecMeets (fun s l => s.Outlives l) (new 1)
        [.release none, .shutdownLock 0, .shutdownSetFlag 0,
          .shutdownNotifyAll 0, .workerLock 0, .workerEnter 0,
          .shutdownJoin 0 0, .shutdownClear 0, .destroy] := by
    decide
  have hReach :=
    TransitionSystem.reachableWhere_of_exec
      (.init rfl) hMeets rfl
  refine ⟨_, rfl, rfl, ?_⟩
  intro hEnabled
  exact (outlives_workers hReach).1 _ rfl hEnabled trivial

/-
  A task whose user data is the pool: the client gives up its
  reference first, so that the worker gives up the last one,
  deinitializes the pool, does not wait for itself and goes
  back to the head of its loop.
-/
theorem worker_uses_freed_pool :
    ∃ s,
      (workerPool 1).Reachable s ∧ s.destroyed = true ∧
        s.Enabled (.workerLock 0) ∧
          (PoolStep.workerLock (0 : Fin 1)).UsesPool ∧
            s.deInit = some 0 ∧
              (s.calls 0).caller = some 0 := by
  have hExec :
      (workerPool 1).exec (new 1)
          [.postBegin (some .pool), .postLock 0, .postAppend 0,
            .postReleaseTask 0, .postNotify 0 (fun _ => false),
            .release none, .workerLock 0, .workerEnter 0,
            .workerStart 0 0, .workerFinish 0 0,
            .workerReleaseUserData 0 0, .shutdownLock 0,
            .shutdownSetFlag 0, .shutdownNotifyAll 0,
            .shutdownJoin 0 0, .shutdownClear 0, .destroy,
            .workerReleaseTask 0 0] = some _ := rfl
  have hReach : (workerPool 1).Reachable _ :=
    TransitionSystem.reachable_of_exec rfl hExec
  exact ⟨_, hReach, rfl, by decide, trivial, rfl, rfl⟩

end KWorkerPool

end KDoth
