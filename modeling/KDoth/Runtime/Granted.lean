import KDoth.Runtime.Process
import Mathlib.Data.List.Basic

/-
  Calls that return whatever the state of the process, as
  they do when every allocation succeeds.

  Key definitions include:
    * `Yields`

  Key theorems include:
    * `Yields.bind`
    * `Yields.foldRange`
-/

------------------------------------------------------------
-- Calls That Return
------------------------------------------------------------

namespace KDoth

open Command

variable {α β : Type}

/- From every process state the call returns a value in `Q`. -/
def Yields
    (c : Call α)
    (Q : α → Prop) : Prop :=
  ∀ p, Returns c p (fun a _ => Q a)

namespace Yields

theorem ret
    {a : α}
    {Q : α → Prop}
    (hQ : Q a) :
    Yields (pure a) Q := by
  intro p
  exact ⟨a, p, rfl, hQ⟩

theorem bind
    {c : Call β}
    {f : β → Call α}
    {R : β → Prop}
    {Q : α → Prop}
    (hFirst : Yields c R)
    (hNext : ∀ b, R b → Yields (f b) Q) :
    Yields (c >>= f) Q := by
  intro p
  rw [returns_iff_wp, wp_bind, ← returns_iff_wp]
  apply (hFirst p).mono
  intro b q hb
  exact returns_iff_wp.mp (hNext b hb q)

theorem mono
    {c : Call α}
    {Q Q' : α → Prop}
    (hYields : Yields c Q)
    (hQ : ∀ a, Q a → Q' a) :
    Yields c Q' := by
  intro p
  exact (hYields p).mono (fun a _ ha => hQ a ha)

/- What is returned from one state is in `Q`. -/
theorem of_ok
    {c : Call α}
    {Q : α → Prop}
    (hYields : Yields c Q)
    {p q : Process}
    {a : α}
    (hRun : c p = .ok a q) :
    Q a := by
  rcases hYields p with ⟨b, q', hOther, hQ⟩
  rw [hRun] at hOther
  cases hOther
  exact hQ

theorem ofUpdate
    {f : Process → Process}
    {Q : PUnit → Prop}
    (hQ : Q ⟨⟩) :
    Yields (modify f) Q := by
  intro p
  exact ⟨⟨⟩, f p, rfl, hQ⟩

theorem ofAssert
    {condition : Bool}
    (hCondition : condition = true) :
    Yields (kAssert condition) (fun _ => True) := by
  rw [hCondition]
  exact ret trivial

theorem ofObjectRelease
    {address : Nat}
    {deInit : Call Unit}
    (hDeInit : Yields deInit (fun _ => True)) :
    Yields (objectRelease address deInit) (fun _ => True) := by
  intro p
  rw [returns_iff_wp, wp_objectRelease]
  by_cases hLast : p.refCount address = 1
  · rw [if_pos hLast]
    exact returns_iff_wp.mp (hDeInit _)
  · rw [if_neg hLast]
    trivial

/-
  A counting loop that carries a value keeps an invariant
  about the count and the value.
-/
theorem foldRange
    {f : α → Nat → Call α}
    (Inv : Nat → α → Prop)
    (n : Nat)
    (hStep :
      ∀ i a, i < n → Inv i a → Yields (f a i) (Inv (i + 1)))
    {a : α}
    (hStart : Inv 0 a) :
    Yields ((List.range n).foldlM f a) (Inv n) := by
  induction n with
  | zero => exact ret hStart
  | succ n ih =>
      rw [List.range_succ, List.foldlM_append]
      have hBefore :=
        ih (fun i a hi => hStep i a (Nat.lt_succ_of_lt hi))
      apply bind hBefore
      intro b hb
      rw [List.foldlM_cons]
      apply bind (hStep n b (Nat.lt_succ_self n) hb)
      intro b' hb'
      exact ret hb'

end Yields

end KDoth

------------------------------------------------------------
-- Granted Allocations
------------------------------------------------------------

namespace KDoth

open Command

variable {allocator : Allocator}

namespace Yields

theorem ofRequest
    (hGranted : ∀ n, allocator n = true)
    {site : AllocationSite} :
    Yields (request allocator site)
      (fun granted => granted = true) := by
  intro p
  rw [returns_iff_wp, wp_request]
  exact hGranted _

theorem ofObjectNew
    (hGranted : ∀ n, allocator n = true)
    {clasz : ObjectClass} :
    Yields (objectNew allocator clasz)
      (fun r => ∃ address, r = some address) := by
  intro p
  rw [returns_iff_wp, wp_objectNew, if_pos (hGranted _)]
  exact ⟨p.nextAddress, rfl⟩

end Yields

end KDoth
