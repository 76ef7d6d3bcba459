import KDoth.Threads.Steps

/-
  Joins of the workers. A shutdown whose joins wait returns
  only when no worker is left.

  Key definitions include:
    * `KWorkerPool.Waited`

  Key theorems include:
    * `KWorkerPool.joined_of_next`
    * `KWorkerPool.cleared_of_next`
    * `KWorkerPool.Waited.next`
-/

------------------------------------------------------------
-- The Array of Threads
------------------------------------------------------------

namespace KDoth

namespace KWorkerPool

variable {W : Nat}
variable {s : KWorkerPool W}
variable {l : PoolStep W}

/- A thread is marked as joined by a join of it. -/
theorem joined_of_next
    {w : Fin W}
    (hJoined : (s.next l).joined w = true) :
    s.joined w = true ∨ ∃ c, l = .shutdownJoin c w := by
  cases l with
  | shutdownJoin c v =>
      by_cases hSelf : w = v
      · exact .inr ⟨c, by rw [hSelf]⟩
      · left
        simp only [next] at hJoined
        split at hJoined
        · exact hJoined
        · rw [Function.update_of_ne hSelf] at hJoined
          exact hJoined
  | release actor =>
      rcases s.next_release actor with
        ⟨calls, n, d, hEq⟩
      rw [hEq] at hJoined
      exact .inl hJoined
  | workerReleaseUserData v t =>
      rcases s.next_workerReleaseUserData v t with
        ⟨p, calls, n, d, hEq⟩
      rw [hEq] at hJoined
      exact .inl hJoined
  | workerEnter v =>
      rcases s.next_workerEnter v with
        ⟨workers, tasks, d, hEq⟩
      rw [hEq] at hJoined
      exact .inl hJoined
  | workerRecheck v =>
      rcases s.next_workerRecheck v with
        ⟨workers, tasks, d, hEq⟩
      rw [hEq] at hJoined
      exact .inl hJoined
  | _ => exact .inl hJoined

/- The array is emptied at the end of a shutdown. -/
theorem cleared_of_next :
    (s.next l).cleared = s.cleared ∨
      ∃ c,
        l = .shutdownClear c ∧ (s.next l).cleared = true := by
  cases l with
  | shutdownClear c => exact .inr ⟨c, rfl, rfl⟩
  | release actor =>
      rcases s.next_release actor with
        ⟨calls, n, d, hEq⟩
      left
      rw [hEq]
  | workerReleaseUserData v t =>
      rcases s.next_workerReleaseUserData v t with
        ⟨p, calls, n, d, hEq⟩
      left
      rw [hEq]
      rfl
  | workerEnter v =>
      rcases s.next_workerEnter v with
        ⟨workers, tasks, d, hEq⟩
      left
      rw [hEq]
  | workerRecheck v =>
      rcases s.next_workerRecheck v with
        ⟨workers, tasks, d, hEq⟩
      left
      rw [hEq]
  | _ => exact .inl rfl

end KWorkerPool

end KDoth

------------------------------------------------------------
-- Joins That Wait
------------------------------------------------------------

namespace KDoth

namespace KWorkerPool

variable {W : Nat}
variable {s : KWorkerPool W}
variable {l : PoolStep W}

/- A worker that has ended does not run again. -/
theorem ended_of_next
    (hEnabled : s.Enabled l)
    {w : Fin W}
    (hEnded : s.phase w = .ended) :
    (s.next l).phase w = .ended := by
  have hAfterPhase :
      (s.next l).phase w = ((s.next l).workers w).phase := rfl
  cases worker_of_next hEnabled w with
  | same hSame =>
      rw [hAfterPhase, hSame]
      exact hEnded
  | advances hStep _ =>
      cases hStep with
      | waits hChecks _ _
      | leaves hChecks _ _
      | takes hChecks _ =>
          rcases hChecks with ⟨_, hPhase, _⟩ | ⟨_, hPhase, _⟩ <;>
            rw [hEnded] at hPhase <;> cases hPhase
      | woken hPhase
      | lock hPhase
      | relock hPhase
      | starts hPhase
      | finishes hPhase
      | releasesUserData hPhase
      | releasesTask hPhase =>
          rw [hEnded] at hPhase
          cases hPhase

/-
  A shutdown call is past workers that are out of the way
  only. A call that finds the array empty is past all of them.
-/
structure Waited
    (s : KWorkerPool W)
    (Out : Fin W → Prop)
    (c : Nat) : Prop where
  joining :
    ∀ i n,
      (s.calls c).phase = .joining i n →
        (∀ w : Fin W, w.val < i → Out w) ∧
          (n = W ∨ ∀ w, Out w)
  returned : (s.calls c).phase = .returned → ∀ w, Out w

/- A call past the last join is past all workers. -/
theorem Waited.all_out
    {Out : Fin W → Prop}
    {c n : Nat}
    (hWaited : s.Waited Out c)
    (hPhase : (s.calls c).phase = .joining n n) :
    ∀ w, Out w := by
  rcases hWaited.joining n n hPhase with ⟨hFirst, hRest⟩
  rcases hRest with rfl | hAll
  · exact fun w => hFirst w w.isLt
  · exact hAll

theorem Waited.next
    {Out Out' : Fin W → Prop}
    {c : Nat}
    (hWaited : s.Waited Out c)
    (hEnabled : s.Enabled l)
    (hStays : ∀ w, Out w → Out' w)
    (hCleared : s.cleared = true → ∀ w, Out w)
    (hJoin : ∀ w, l = .shutdownJoin c w → Out w) :
    (s.next l).Waited Out' c := by
  have hAllStay : (∀ w, Out w) → ∀ w, Out' w := fun hAll w =>
    hStays w (hAll w)
  cases call_of_next hEnabled c with
  | same hSame =>
      constructor
      · intro i n hJoining
        rw [hSame] at hJoining
        rcases hWaited.joining i n hJoining with ⟨hFirst, hRest⟩
        refine ⟨?_, hRest.imp_right hAllStay⟩
        exact fun w hw => hStays w (hFirst w hw)
      · intro hReturned
        rw [hSame] at hReturned
        exact hAllStay (hWaited.returned hReturned)
  | begins _ hPhase _ _ =>
      constructor
      · intro i n hJoining
        rw [hPhase] at hJoining
        cases hJoining
      · intro hReturned
        rw [hPhase] at hReturned
        cases hReturned
  | advances hStep hAfter =>
      constructor
      · intro i n hJoining
        rw [hAfter] at hJoining
        cases hStep with
        | lock => cases hJoining
        | setFlag => cases hJoining
        | clear _ => cases hJoining
        | notifyAll =>
            by_cases hEmpty : s.cleared = true
            · have hAll := hAllStay (hCleared hEmpty)
              exact ⟨fun w _ => hAll w, .inr hAll⟩
            · rw [if_neg hEmpty] at hJoining
              cases hJoining
              refine ⟨?_, .inl rfl⟩
              intro w hw
              exact absurd hw (Nat.not_lt_zero _)
        | @join v m hPhase hBound _ =>
            cases hJoining
            rcases hWaited.joining _ _ hPhase with
              ⟨hFirst, hRest⟩
            refine ⟨?_, hRest.imp_right hAllStay⟩
            intro w hw
            apply hStays
            by_cases hSelf : w = v
            · rw [hSelf]
              exact hJoin v rfl
            · apply hFirst w
              have hNe : w.val ≠ v.val := fun hEq =>
                hSelf (Fin.ext hEq)
              omega
      · intro hReturned
        rw [hAfter] at hReturned
        cases hStep with
        | clear hPhase => exact hAllStay (hWaited.all_out hPhase)
        | _ => cases hReturned

end KWorkerPool

end KDoth
