import KDoth.Threads.Steps

/-
  No wakeup is lost: while tasks are in the list some worker
  is up or some poster is about to signal, and once the flag
  is set the blocked workers are about to be woken.

  Key definitions include:
    * `PostPhase.Signals`
    * `KWorkerPool.Awakened`

  Key theorems include:
    * `KWorkerPool.waiting_of_next`
    * `KWorkerPool.no_lost_wakeup`
-/

------------------------------------------------------------
-- What Each Step Does to the Wait
------------------------------------------------------------

namespace KDoth

namespace PostPhase

/- Between its critical section and its `NotifyOne`. -/
def Signals (p : PostPhase) : Prop :=
  p = .appended ∨ p = .notifying

end PostPhase

namespace KWorkerPool

variable {W : Nat}
variable {s : KWorkerPool W}
variable {l : PoolStep W}

/-
  A worker that is blocked after a step was blocked before
  it or found the list empty and the flag clear.
-/
theorem waiting_of_next
    (hEnabled : s.Enabled l)
    {w : Fin W}
    (hWaiting : (s.next l).phase w = .waiting) :
    s.phase w = .waiting ∨
      (s.tasks = [] ∧ s.shutdown = false) := by
  unfold phase at hWaiting
  cases worker_of_next hEnabled w with
  | same hSame =>
      rw [hSame] at hWaiting
      exact .inl hWaiting
  | advances hStep hAfter =>
      rw [hAfter] at hWaiting
      cases hStep with
      | waits _ hTasks hFlag => exact .inr ⟨hTasks, hFlag⟩
      | leaves _ _ _ =>
          split at hWaiting <;> cases hWaiting
      | releasesTask _ =>
          dsimp only at hWaiting
          split at hWaiting <;> cases hWaiting
      | _ => cases hWaiting

/- A broadcast leaves nobody blocked. -/
theorem not_waiting_of_notifyAll
    (c : Nat)
    (w : Fin W) :
    (s.next (.shutdownNotifyAll c)).phase w ≠ .waiting := by
  have hPhase :
      (s.next (.shutdownNotifyAll c)).phase w =
        (s.wake (fun w => s.phase w == .waiting)).phase w := rfl
  rw [hPhase, phase_wake]
  by_cases hBlocked : s.phase w = .waiting
  · simp [hBlocked]
  · simp [hBlocked]

end KWorkerPool

end KDoth

------------------------------------------------------------
-- Signals
------------------------------------------------------------

namespace KDoth

namespace KWorkerPool

variable {W : Nat}
variable {s : KWorkerPool W}
variable {l : PoolStep W}

/- A wait has a shutdown, or tasks have a worker or signal. -/
structure Awakened (s : KWorkerPool W) : Prop where
  tasks :
    s.shutdown = false →
      s.tasks ≠ [] →
        (∃ w, s.phase w ≠ .waiting) ∨
          ∃ t, (s.posts t).Signals
  flag :
    s.shutdown = true →
      (∃ w, s.phase w = .waiting) →
        ∃ c, (s.calls c).phase = .notifying

/- A signal that is due stays due until it is sent. -/
theorem signals_of_next
    (hFresh : s.Fresh)
    (hEnabled : s.Enabled l)
    {t : Nat}
    (hSignals : (s.posts t).Signals) :
    ((s.next l).posts t).Signals ∨
      ∃ woken, l = .postNotify t woken := by
  rcases post_of_next (s := s) (l := l) t with
    hSame | ⟨hSelf, _, _⟩ | ⟨hStep, _⟩ | ⟨_, hPhase⟩ |
      ⟨_, hPhase⟩ | ⟨hStep, _⟩
  · rw [hSame]
    exact .inl hSignals
  · have hIdle := hFresh.posts t (le_of_eq hSelf.symm)
    rw [hIdle] at hSignals
    rcases hSignals with hBad | hBad <;> cases hBad
  · subst hStep
    have hPrepared := hEnabled.1
    rw [hPrepared] at hSignals
    rcases hSignals with hBad | hBad <;> cases hBad
  · exact .inl (.inl hPhase)
  · exact .inl (.inr hPhase)
  · exact .inr hStep

/- A broadcast that is due stays due until it is sent. -/
theorem notifying_of_next
    (hFresh : s.Fresh)
    (hEnabled : s.Enabled l)
    {c : Nat}
    (hNotifying : (s.calls c).phase = .notifying) :
    ((s.next l).calls c).phase = .notifying ∨
      l = .shutdownNotifyAll c := by
  cases call_of_next hEnabled c with
  | same hSame =>
      rw [hSame]
      exact .inl hNotifying
  | begins hSelf _ _ _ =>
      have hIdle := hFresh.calls c (le_of_eq hSelf.symm)
      rw [hIdle] at hNotifying
      cases hNotifying
  | advances hStep hAfter =>
      cases hStep with
      | lock =>
          rw [hEnabled.1] at hNotifying
          cases hNotifying
      | setFlag =>
          left
          rw [hAfter]
      | notifyAll => exact .inr rfl
      | join hPhase _ _ =>
          rw [hPhase] at hNotifying
          cases hNotifying
      | clear hPhase =>
          rw [hPhase] at hNotifying
          cases hNotifying

/- Some worker is up after a signal. -/
theorem up_of_notify
    (hPos : 0 < W)
    {t : Nat}
    {woken : Fin W → Bool}
    (hEnabled : s.Enabled (.postNotify t woken)) :
    ∃ w, (s.next (.postNotify t woken)).phase w ≠ .waiting := by
  have hPhase :
      ∀ w,
        (s.next (.postNotify t woken)).phase w =
          (s.wake woken).phase w := fun _ => rfl
  by_cases hBlocked : ∃ w, s.phase w = .waiting
  · rcases hEnabled.2.2 hBlocked with ⟨w, hWoken⟩
    refine ⟨w, ?_⟩
    rw [hPhase, phase_wake, if_pos hWoken]
    simp
  · refine ⟨⟨0, hPos⟩, ?_⟩
    intro hWaiting
    rw [hPhase, phase_wake] at hWaiting
    split at hWaiting
    · cases hWaiting
    · exact hBlocked ⟨_, hWaiting⟩

theorem Awakened.next
    (hPos : 0 < W)
    (hFresh : s.Fresh)
    (hAwakened : s.Awakened)
    (hEnabled : s.Enabled l) :
    (s.next l).Awakened := by
  constructor
  · intro hFlag hTasks
    have hClear : s.shutdown = false := by
      by_contra hSet
      rw [shutdown_next (by simpa using hSet)] at hFlag
      cases hFlag
    cases queue_of_next (s := s) (l := l) with
    | same _ _ hSame _ _ _ =>
        rw [hSame] at hTasks
        rcases hAwakened.tasks hClear hTasks with
          ⟨w, hUp⟩ | ⟨t, hSignals⟩
        · refine .inl ⟨w, ?_⟩
          intro hWaiting
          rcases waiting_of_next hEnabled hWaiting with
            hBefore | ⟨hEmpty, _⟩
          · exact hUp hBefore
          · exact hTasks hEmpty
        · rcases signals_of_next hFresh hEnabled hSignals with
            hStill | ⟨woken, rfl⟩
          · exact .inr ⟨t, hStill⟩
          · exact .inl (up_of_notify hPos hEnabled)
    | @appends t hStep _ _ _ _ =>
        subst hStep
        refine .inr ⟨t, .inl ?_⟩
        exact Function.update_self ..
    | @takes w t rest _ _ _ hPhase _ _ _ =>
        refine .inl ⟨w, ?_⟩
        rw [hPhase]
        simp
    | destroys _ hEmpty _ _ _ => exact absurd hEmpty hTasks
  · intro hFlag hWaits
    rcases hWaits with ⟨w, hWaiting⟩
    rcases shutdown_of_next (s := s) (l := l) with
      hSame | ⟨c, rfl, _⟩
    · rw [hSame] at hFlag
      rcases waiting_of_next hEnabled hWaiting with
        hBefore | ⟨_, hClear⟩
      · rcases hAwakened.flag hFlag ⟨w, hBefore⟩ with
          ⟨c, hNotifying⟩
        rcases notifying_of_next hFresh hEnabled hNotifying with
          hStill | rfl
        · exact ⟨c, hStill⟩
        · exact absurd hWaiting (not_waiting_of_notifyAll c w)
      · rw [hFlag] at hClear
        cases hClear
    · refine ⟨c, ?_⟩
      have hAfter :
          (s.next (.shutdownSetFlag c)).calls c =
            { s.calls c with phase := .notifying } :=
        Function.update_self ..
      rw [hAfter]

end KWorkerPool

end KDoth

------------------------------------------------------------
-- Main Result
------------------------------------------------------------

namespace KDoth

namespace KWorkerPool

variable {W : Nat}

/-
  In no reachable state with the flag clear are there tasks,
  all workers blocked and no poster about to signal. In none
  with the flag set is a worker blocked and no shutdown call
  about to wake all.
-/
theorem no_lost_wakeup
    (hPos : 0 < W)
    {s : KWorkerPool W}
    (hReach : (workerPool W).Reachable s) :
    ¬ (s.shutdown = false ∧ s.tasks ≠ [] ∧
        (∀ w, s.phase w = .waiting) ∧
          ∀ t, ¬ (s.posts t).Signals) ∧
      ¬ (s.shutdown = true ∧ (∃ w, s.phase w = .waiting) ∧
        ∀ c, (s.calls c).phase ≠ .notifying) := by
  have hBoth : s.Fresh ∧ s.Awakened := by
    apply hReach.invariant
    · intro s hInit
      subst hInit
      refine ⟨⟨fun _ _ => rfl, fun _ _ => rfl⟩, ?_, ?_⟩
      · intro _ hTasks
        exact absurd rfl hTasks
      · intro hFlag
        cases hFlag
    · intro s l s' hBoth hStep
      rcases step_inv hStep with ⟨hEnabled, rfl⟩
      exact
        ⟨hBoth.1.next hEnabled,
          hBoth.2.next hPos hBoth.1 hEnabled⟩
  constructor
  · rintro ⟨hFlag, hTasks, hAll, hNone⟩
    rcases hBoth.2.tasks hFlag hTasks with
      ⟨w, hUp⟩ | ⟨t, hSignals⟩
    · exact hUp (hAll w)
    · exact hNone t hSignals
  · rintro ⟨hFlag, hWaits, hNone⟩
    rcases hBoth.2.flag hFlag hWaits with ⟨c, hNotifying⟩
    exact hNone c hNotifying

/- A post to a blocked worker, before its signal. -/
theorem no_lost_wakeup_post :
    ∃ s,
      (workerPool 1).exec (new 1)
          [.workerLock 0, .workerEnter 0, .postBegin none,
            .postLock 0, .postAppend 0] = some s ∧
        s.phase 0 = .waiting ∧ s.tasks = [0] ∧
          ¬ (s.shutdown = false ∧ s.tasks ≠ [] ∧
            (∀ w, s.phase w = .waiting) ∧
              ∀ t, ¬ (s.posts t).Signals) := by
  have hExec :
      (workerPool 1).exec (new 1)
          [.workerLock 0, .workerEnter 0, .postBegin none,
            .postLock 0, .postAppend 0] = some _ := rfl
  have hReach : (workerPool 1).Reachable _ :=
    TransitionSystem.reachable_of_exec rfl hExec
  exact
    ⟨_, hExec, rfl, rfl, (no_lost_wakeup Nat.one_pos hReach).1⟩

end KWorkerPool

end KDoth
