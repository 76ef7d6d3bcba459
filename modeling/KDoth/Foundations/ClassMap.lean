import Mathlib.Data.Set.Card
import Mathlib.Data.List.Perm.Basic
import Mathlib.Data.List.Pairwise

/-
  Finite maps on the classes of an equivalence of keys, and
  their representation by association lists.

  Key definitions include:
    * `ClassMap`
    * `ClassMap.get`
    * `ClassMap.insert`
    * `ClassMap.erase`
    * `ClassMap.count`
    * `ClassMap.Represents`

  Key theorems include:
    * `ClassMap.Represents.insert_fresh`
    * `ClassMap.Represents.insert_present`
    * `ClassMap.Represents.erase_present`
    * `ClassMap.Represents.count_eq`
-/

------------------------------------------------------------
-- Maps On Key Classes
------------------------------------------------------------

namespace KDoth

/- A map from classes of equivalent keys to values. -/
def ClassMap {K : Type} (S : Setoid K) (V : Type) : Type :=
  Quotient S → Option V

namespace ClassMap

variable {K V : Type} {S : Setoid K}

/- The map with no key. -/
def empty : ClassMap S V :=
  fun _ => none

/- The value stored for the class of a key. -/
def get (σ : ClassMap S V) (k : K) : Option V :=
  σ (Quotient.mk S k)

/- Store a value for the class of a key. -/
noncomputable def insert
    (σ : ClassMap S V)
    (k : K)
    (v : V) : ClassMap S V :=
  open Classical in
  fun q => if q = Quotient.mk S k then some v else σ q

/- Forget the class of a key. -/
noncomputable def erase
    (σ : ClassMap S V)
    (k : K) : ClassMap S V :=
  open Classical in
  fun q => if q = Quotient.mk S k then none else σ q

/- The number of classes that have a value. -/
noncomputable def count (σ : ClassMap S V) : Nat :=
  Set.ncard {q : Quotient S | (σ q).isSome}

/-
  An association list without equivalent keys that holds the
  same values as the map.
-/
def Represents
    (l : List (K × V))
    (σ : ClassMap S V) : Prop :=
  l.Pairwise (fun x y => ¬ S x.1 y.1) ∧
    ∀ q v,
      σ q = some v ↔
        ∃ x ∈ l, Quotient.mk S x.1 = q ∧ x.2 = v

end ClassMap

end KDoth

------------------------------------------------------------
-- Association Lists
------------------------------------------------------------

namespace KDoth

namespace ClassMap

namespace Represents

variable {K V : Type} {S : Setoid K}
variable {σ : ClassMap S V} {l : List (K × V)}

theorem nil :
    Represents [] (empty : ClassMap S V) := by
  constructor
  · exact List.Pairwise.nil
  · intro q v
    simp [empty]

/- The order of the list does not matter. -/
theorem perm
    {l' : List (K × V)}
    (hPerm : l.Perm l')
    (hRep : Represents l σ) :
    Represents l' σ := by
  constructor
  · refine (hPerm.pairwise_iff ?_).mp hRep.1
    intro x y hNe hEq
    exact hNe (Setoid.symm hEq)
  · intro q v
    rw [hRep.2 q v]
    constructor
    · rintro ⟨x, hMem, hx⟩
      exact ⟨x, hPerm.mem_iff.mp hMem, hx⟩
    · rintro ⟨x, hMem, hx⟩
      exact ⟨x, hPerm.mem_iff.mpr hMem, hx⟩

/- A listed key reads back its value. -/
theorem get_of_mem
    (hRep : Represents l σ)
    {x : K × V}
    (hMem : x ∈ l)
    {k : K}
    (hKey : S k x.1) :
    σ.get k = some x.2 :=
  (hRep.2 _ _).mpr
    ⟨x, hMem, (Quotient.sound hKey).symm, rfl⟩

/- A key equivalent to no listed key has no value. -/
theorem get_eq_none
    (hRep : Represents l σ)
    {k : K}
    (hFresh : ∀ x ∈ l, ¬ S k x.1) :
    σ.get k = none := by
  cases hGet : σ.get k with
  | none => rfl
  | some v =>
      rcases (hRep.2 _ v).mp hGet with ⟨x, hMem, hKey, _⟩
      exact
        absurd (Setoid.symm (Quotient.exact hKey))
          (hFresh x hMem)

/- A fresh key is stored by adding a pair. -/
theorem insert_fresh
    (hRep : Represents l σ)
    {k : K}
    (v : V)
    (hFresh : ∀ x ∈ l, ¬ S k x.1) :
    Represents ((k, v) :: l) (σ.insert k v) := by
  constructor
  · exact List.pairwise_cons.mpr ⟨hFresh, hRep.1⟩
  · intro q w
    by_cases hq : q = Quotient.mk S k
    · subst hq
      constructor
      · intro hGet
        refine ⟨(k, v), List.mem_cons_self, rfl, ?_⟩
        simpa [insert] using hGet
      · rintro ⟨x, hMem, hKey, hVal⟩
        rcases List.mem_cons.mp hMem with hHead | hTail
        · subst hHead
          simpa [insert] using hVal
        · exact
            absurd (Setoid.symm (Quotient.exact hKey))
              (hFresh x hTail)
    · have hOld : (σ.insert k v) q = σ q := by
        simp [insert, hq]
      rw [hOld, hRep.2 q w]
      constructor
      · rintro ⟨x, hMem, hx⟩
        exact ⟨x, List.mem_cons_of_mem _ hMem, hx⟩
      · rintro ⟨x, hMem, hKey, hVal⟩
        rcases List.mem_cons.mp hMem with hHead | hTail
        · subst hHead
          exact absurd hKey.symm hq
        · exact ⟨x, hTail, hKey, hVal⟩

/- A listed key is forgotten by dropping its pair. -/
theorem erase_present
    {x : K × V}
    (hRep : Represents (x :: l) σ)
    {k : K}
    (hKey : S k x.1) :
    Represents l (σ.erase k) := by
  rcases List.pairwise_cons.mp hRep.1 with ⟨hHead, hTail⟩
  have hClass : Quotient.mk S k = Quotient.mk S x.1 :=
    Quotient.sound hKey
  constructor
  · exact hTail
  · intro q v
    by_cases hq : q = Quotient.mk S k
    · subst hq
      constructor
      · intro hGet
        simp [erase] at hGet
      · rintro ⟨y, hMem, hy, _⟩
        exact
          absurd (Quotient.exact (hy.trans hClass).symm)
            (hHead y hMem)
    · have hOld : (σ.erase k) q = σ q := by
        simp [erase, hq]
      rw [hOld, hRep.2 q v]
      constructor
      · rintro ⟨y, hMem, hy, hVal⟩
        rcases List.mem_cons.mp hMem with hEq | hMemTail
        · subst hEq
          exact absurd (hy.symm.trans hClass.symm) hq
        · exact ⟨y, hMemTail, hy, hVal⟩
      · rintro ⟨y, hMem, hy⟩
        exact ⟨y, List.mem_cons_of_mem _ hMem, hy⟩

/-
  Storing under a listed key keeps the listed key and changes
  its value.
-/
theorem insert_present
    {x : K × V}
    (hRep : Represents (x :: l) σ)
    {k : K}
    (v : V)
    (hKey : S k x.1) :
    Represents ((x.1, v) :: l) (σ.insert k v) := by
  have hHead := (List.pairwise_cons.mp hRep.1).1
  have hErased := erase_present hRep hKey
  have hStored :=
    insert_fresh (k := x.1) hErased v hHead
  have hSame :
      (σ.erase k).insert x.1 v = σ.insert k v := by
    have hClass : Quotient.mk S k = Quotient.mk S x.1 :=
      Quotient.sound hKey
    funext q
    by_cases hq : q = Quotient.mk S k
    · simp [insert, ← hClass, hq]
    · simp [insert, erase, ← hClass, hq]
  rw [← hSame]
  exact hStored

/- The map has as many classes as the list has pairs. -/
theorem count_eq
    (hRep : Represents l σ) :
    σ.count = l.length := by
  have hNodup :
      (l.map fun x => Quotient.mk S x.1).Nodup := by
    rw [List.Nodup, List.pairwise_map]
    refine hRep.1.imp ?_
    intro x y hNe hEq
    exact hNe (Quotient.exact hEq)
  have hSet :
      {q : Quotient S | (σ q).isSome} =
        {q | q ∈ l.map fun x => Quotient.mk S x.1} := by
    ext q
    simp only [Set.mem_ofPred_eq, Option.isSome_iff_exists,
      List.mem_map]
    constructor
    · rintro ⟨v, hv⟩
      rcases (hRep.2 q v).mp hv with ⟨x, hMem, hKey, _⟩
      exact ⟨x, hMem, hKey⟩
    · rintro ⟨x, hMem, hKey⟩
      exact ⟨x.2, (hRep.2 q x.2).mpr ⟨x, hMem, hKey, rfl⟩⟩
  classical
  have hFinset :
      {q | q ∈ l.map fun x => Quotient.mk S x.1} =
        ((l.map fun x => Quotient.mk S x.1).toFinset :
          Set (Quotient S)) := by
    ext q
    simp
  unfold count
  rw [hSet, hFinset, Set.ncard_coe_finset,
    List.toFinset_card_of_nodup hNodup, List.length_map]

end Represents

end ClassMap

end KDoth
