import KDoth.Threads.KSemaphore

/-
  The last release of a semaphore on Darwin. The system traps
  when a semaphore is released below the count that it was
  created with, and the loop that is to prevent this signals
  only once when no thread waits.

  Key definitions include:
    * `SemaphoreHandle.drain`
    * `SemaphoreHandle.dispatchRelease`
    * `KSemaphore.deInit`

  Key theorems include:
    * `SemaphoreHandle.drain_of_idle`
    * `KSemaphore.balance_of_run`
    * `KSemaphore.released_iff`
-/

------------------------------------------------------------
-- The Last Release
------------------------------------------------------------

namespace KDoth

namespace SemaphoreHandle

variable {Thread : Type}

/-
  The loop of `KSemaphoreDeInit`: signal until no thread is
  woken. Every signal leaves fewer threads to wake.
-/
def drain
    (h : SemaphoreHandle Thread) :
    SemaphoreHandle Thread :=
  if h.dispatchSemaphoreSignal.1 ≠ 0 then
    drain h.dispatchSemaphoreSignal.2
  else
    h.dispatchSemaphoreSignal.2
termination_by h.waiting.card - h.count
decreasing_by
  rename_i hWoken
  have hFewer : h.count < h.waiting.card := by
    by_contra hNot
    exact hWoken (if_neg hNot)
  change h.waiting.card - (h.count + 1) < _
  omega

/-
  `dispatch_release` of a semaphore that was created with a
  count. It traps if the count is lower now.
-/
def dispatchRelease
    (created : Nat)
    (h : SemaphoreHandle Thread) : Bool :=
  created ≤ h.count

/- Without a thread to wake there is one signal. -/
theorem drain_of_idle
    {h : SemaphoreHandle Thread}
    (hIdle : h.waiting = ∅) :
    h.drain = h.posted := by
  have hNone : ¬ h.count < h.waiting.card := by
    rw [hIdle, Finset.card_empty]
    exact Nat.not_lt_zero _
  rw [drain, dispatchSemaphoreSignal, if_neg hNone]
  rfl

end SemaphoreHandle

namespace SemaphoreStep

variable {Thread : Type}

/- The step is the end of a wait. -/
def isPass : SemaphoreStep Thread → Bool
| .pass _ => true
| _ => false

def isSignal : SemaphoreStep Thread → Bool
| .signal _ => true
| _ => false

end SemaphoreStep

namespace KSemaphore

variable {Thread : Type} [DecidableEq Thread]

/-
  `KSemaphoreDeInit` on Darwin, for a semaphore that was
  created with `n`, and whether its last call does not trap.
-/
def deInit
    (n : UInt64)
    (sema : KSemaphore Thread) : Bool :=
  sema.handle.drain.dispatchRelease n.toNat

end KSemaphore

end KDoth

------------------------------------------------------------
-- Histories
------------------------------------------------------------

namespace KDoth

namespace KSemaphore

variable {Thread : Type} [DecidableEq Thread]
variable {sema sema' : KSemaphore Thread}

/- A wait takes one unit, and a signal adds one. -/
theorem balance_of_step
    {value : Option Bool}
    {l : SemaphoreStep Thread}
    (hStep :
      (machine .darwin).step sema l = some (value, sema')) :
    sema'.handle.count + l.isPass.toNat =
      sema.handle.count + l.isSignal.toNat := by
  cases l with
  | wait t =>
      simp only [machine, step] at hStep
      split at hStep
      · cases hStep
      · cases hStep
        rfl
  | interrupt t =>
      simp only [machine, step] at hStep
      split at hStep
      · cases hStep
        rfl
      · cases hStep
  | pass t =>
      simp only [machine, step] at hStep
      split at hStep
      · rename_i hMay
        cases hStep
        exact Nat.sub_add_cancel hMay.2
      · cases hStep
  | signal t =>
      simp only [machine, step] at hStep
      split at hStep
      · cases hStep
      · cases hStep
        rfl

/- By induction on the steps. -/
theorem balance_of_run
    {values : List (Option Bool)}
    {steps : List (SemaphoreStep Thread)}
    (hRun :
      (machine .darwin).run sema steps =
        some (values, sema')) :
    sema'.handle.count +
        steps.countP SemaphoreStep.isPass =
      sema.handle.count +
        steps.countP SemaphoreStep.isSignal := by
  induction steps generalizing sema values with
  | nil =>
      cases hRun
      rfl
  | cons l rest ih =>
      simp only [Machine.run] at hRun
      cases hStep : (machine .darwin).step sema l with
      | none =>
          rw [hStep] at hRun
          cases hRun
      | some r =>
          rcases r with ⟨value, next⟩
          simp only [hStep] at hRun
          cases hRest : (machine .darwin).run next rest with
          | none =>
              rw [hRest] at hRun
              cases hRun
          | some q =>
              rcases q with ⟨later, last⟩
              simp only [hRest] at hRun
              cases hRun
              have hFirst := balance_of_step hStep
              have hLater := ih hRest
              rw [List.countP_cons, List.countP_cons]
              cases hPass : l.isPass <;>
                cases hSignal : l.isSignal <;>
                simp [hPass, hSignal] at hFirst ⊢ <;>
                omega

omit [DecidableEq Thread] in
/- A handle has the count that it was created with. -/
theorem count_of_newHandle
    {n : UInt64}
    {handle : SemaphoreHandle Thread}
    (hHandle : newHandle n .darwin = some handle) :
    handle.count = n.toNat := by
  by_cases hFits : n.toNat < 2 ^ 63
  · have hMade :=
      @newHandle_of_represents Thread .darwin n hFits
    rw [hHandle] at hMade
    cases hMade
    rfl
  · have hBound : n.toNat < 2 ^ 64 := n.toNat_lt
    have hNegative : n.toInt64.toInt < 0 := by
      rw [toInt_intptr, Int.bmod]
      omega
    simp only [newHandle,
      SemaphoreHandle.dispatchSemaphoreCreate,
      if_pos hNegative] at hHandle
    cases hHandle

omit [DecidableEq Thread] in
theorem count_of_new
    {n : UInt64}
    (hNew : new true .darwin n = some sema) :
    sema.handle.count = n.toNat := by
  simp only [new, if_true] at hNew
  cases hHandle :
      (newHandle n .darwin :
        Option (SemaphoreHandle Thread)) with
  | none =>
      rw [hHandle] at hNew
      cases hNew
  | some handle =>
      rw [hHandle] at hNew
      cases hNew
      exact count_of_newHandle hHandle

end KSemaphore

end KDoth

------------------------------------------------------------
-- Legal Releases
------------------------------------------------------------

namespace KDoth

namespace KSemaphore

variable {Thread : Type} [DecidableEq Thread]

/-
  When no thread waits, the last release is legal exactly if
  the waits that passed are at most one more than the signals.
-/
theorem released_iff
    (n : UInt64)
    (sema sema' : KSemaphore Thread)
    (steps : List (SemaphoreStep Thread))
    (values : List (Option Bool))
    (hNew : new true .darwin n = some sema)
    (hRun :
      (machine .darwin).run sema steps = some (values, sema'))
    (hIdle : sema'.handle.waiting = ∅) :
    sema'.deInit n = true ↔
      steps.countP SemaphoreStep.isPass ≤
        steps.countP SemaphoreStep.isSignal + 1 := by
  have hBalance := balance_of_run hRun
  rw [count_of_new hNew] at hBalance
  rw [deInit, SemaphoreHandle.drain_of_idle hIdle,
    SemaphoreHandle.dispatchRelease, decide_eq_true_iff]
  change n.toNat ≤ sema'.handle.count + 1 ↔ _
  omega

/- One unit was taken and not given back. -/
theorem released_iff_taken :
    ∃ sema values sema',
      new true .darwin 1 = some sema ∧
        (machine .darwin).run sema
            [SemaphoreStep.wait 0, .pass 0] =
          some (values, sema') ∧
          (sema'.deInit 1 = true ↔
            [SemaphoreStep.wait 0, .pass 0].countP
                SemaphoreStep.isPass ≤
              [SemaphoreStep.wait 0, .pass 0].countP
                  SemaphoreStep.isSignal + 1) := by
  refine ⟨_, _, _, rfl, rfl, ?_⟩
  exact
    released_iff 1 _ _ [.wait 0, .pass 0] _ rfl rfl (by decide)

/-
  Two of two units are taken when the last reference is
  dropped. The loop gives one back, and the system traps.
-/
theorem releases_below :
    ∃ sema values sema',
      (new true .darwin 2 : Option (KSemaphore Nat)) =
          some sema ∧
        (machine .darwin).run sema
            [.wait 0, .pass 0, .wait 0, .pass 0] =
          some (values, sema') ∧
          sema'.handle.waiting = ∅ ∧
            sema'.deInit 2 = false := by
  refine ⟨_, _, _, rfl, rfl, by decide, ?_⟩
  rw [deInit, SemaphoreHandle.drain_of_idle (by decide)]
  rfl

end KSemaphore

end KDoth
