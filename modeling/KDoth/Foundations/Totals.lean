import Mathlib.Algebra.BigOperators.Group.Finset.Basic
import Mathlib.Algebra.Order.BigOperators.Group.Finset
import Mathlib.Data.Fintype.Basic

/-
  What finitely many parties have together, by a measure of
  what one of them has, and how it changes when one of them
  changes.

  Key definitions include:
    * `total`

  Key theorems include:
    * `sum_update_add`
    * `total_update`
    * `total_le_add`
    * `total_lt_total`
    * `le_total`
    * `total_eq_zero_iff`
-/

------------------------------------------------------------
-- Totals
------------------------------------------------------------

namespace KDoth

variable {Party A : Type}
variable {measure : A → Nat} {parties : Party → A}

/- The sum of what the parties have. -/
def total
    [Fintype Party]
    (measure : A → Nat)
    (parties : Party → A) : Nat :=
  ∑ p, measure (parties p)

/- One of the parties that are added up changes. -/
theorem sum_update_add
    [DecidableEq Party]
    (measure : A → Nat)
    (parties : Party → A)
    {members : Finset Party}
    {p : Party}
    (hMem : p ∈ members)
    (a : A) :
    ∑ q ∈ members, measure (Function.update parties p a q) +
        measure (parties p) =
      ∑ q ∈ members, measure (parties q) + measure a := by
  have hOld :=
    Finset.sum_erase_add members
      (fun q => measure (parties q)) hMem
  have hNew :=
    Finset.sum_erase_add members
      (fun q => measure (Function.update parties p a q)) hMem
  have hSame :
      ∑ q ∈ members.erase p,
          measure (Function.update parties p a q) =
        ∑ q ∈ members.erase p, measure (parties q) := by
    apply Finset.sum_congr rfl
    intro q hq
    rw [Function.update_of_ne (Finset.ne_of_mem_erase hq)]
  rw [hSame, Function.update_self] at hNew
  omega

/- One party changes. -/
theorem total_update
    [Fintype Party]
    [DecidableEq Party]
    (measure : A → Nat)
    (parties : Party → A)
    (p : Party)
    (a : A) :
    total measure (Function.update parties p a) +
        measure (parties p) =
      total measure parties + measure a :=
  sum_update_add measure parties (Finset.mem_univ p) a

/- No party gets more than so much. -/
theorem total_le_add
    [Fintype Party]
    {parties' : Party → A}
    (k : Nat)
    (hMost :
      ∀ p, measure (parties' p) ≤ measure (parties p) + k) :
    total measure parties' ≤
      total measure parties + k * Fintype.card Party := by
  have hSum :=
    Finset.sum_le_sum (s := Finset.univ) fun p _ => hMost p
  have hConst : ∑ _p : Party, k = Fintype.card Party * k :=
    Finset.sum_const_nat fun _ _ => rfl
  rw [Finset.sum_add_distrib, hConst, Nat.mul_comm] at hSum
  exact hSum

/- One party gets more, and none gets less. -/
theorem total_lt_total
    [Fintype Party]
    {parties' : Party → A}
    {p : Party}
    (hLeast :
      ∀ q, measure (parties q) ≤ measure (parties' q))
    (hMore : measure (parties p) < measure (parties' p)) :
    total measure parties < total measure parties' :=
  Finset.sum_lt_sum (fun q _ => hLeast q)
    ⟨p, Finset.mem_univ p, hMore⟩

/- A change that the measure does not see. -/
theorem total_update_of_eq
    [Fintype Party]
    [DecidableEq Party]
    {p : Party}
    {a : A}
    (hSame : measure a = measure (parties p)) :
    total measure (Function.update parties p a) =
      total measure parties := by
  have hTotal := total_update measure parties p a
  omega

/- No party has more than all together. -/
theorem le_total
    [Fintype Party]
    (measure : A → Nat)
    (parties : Party → A)
    (p : Party) :
    measure (parties p) ≤ total measure parties :=
  Finset.single_le_sum (f := fun q => measure (parties q))
    (fun _ _ => Nat.zero_le _) (Finset.mem_univ p)

/- There is nothing where nobody has anything. -/
theorem total_eq_zero_iff
    [Fintype Party] :
    total measure parties = 0 ↔
      ∀ p, measure (parties p) = 0 := by
  unfold total
  rw [Finset.sum_eq_zero_iff]
  exact ⟨fun h p => h p (Finset.mem_univ p), fun h p _ => h p⟩

end KDoth
