import Mathlib.Logic.Function.Basic

/-
  Tables of a system whose slots are handed out and taken
  back: numbers of open files, pages of an address space.
  Each slot in use has a content and belongs to an owner, or
  to nobody that is kept track of.

  Key definitions include:
    * `SlotTable`
    * `SlotTable.claim`
    * `SlotTable.clear`
    * `SlotTable.Within`
    * `SlotTable.Keeps`

  Key theorems include:
    * `SlotTable.Within.claim`
    * `SlotTable.Within.clear`
    * `SlotTable.Keeps.claim`
    * `SlotTable.Keeps.clear`
    * `SlotTable.Keeps.claim_other`
    * `SlotTable.Keeps.clear_other`
    * `SlotTable.Keeps.exclusive`
-/

------------------------------------------------------------
-- Tables
------------------------------------------------------------

namespace KDoth

/- What is in a slot, and who it belongs to. -/
structure Slot (Owner Content : Type) where
  owner : Option Owner
  content : Content
deriving DecidableEq, Repr

abbrev SlotTable (Index Owner Content : Type) :=
  Index → Option (Slot Owner Content)

namespace SlotTable

variable {Index Owner Content : Type}

/- Slots are handed out. -/
def claim
    (table : SlotTable Index Owner Content)
    (slots : Index → Prop)
    [DecidablePred slots]
    (slot : Slot Owner Content) :
    SlotTable Index Owner Content :=
  fun i => if slots i then some slot else table i

/- Slots are taken back. -/
def clear
    (table : SlotTable Index Owner Content)
    (slots : Index → Prop)
    [DecidablePred slots] :
    SlotTable Index Owner Content :=
  fun i => if slots i then none else table i

/- The slot belongs to the owner. -/
def BelongsTo
    (table : SlotTable Index Owner Content)
    (i : Index)
    (o : Owner) : Prop :=
  (table i).bind Slot.owner = some o

instance
    [DecidableEq Owner]
    (table : SlotTable Index Owner Content)
    (i : Index)
    (o : Owner) :
    Decidable (table.BelongsTo i o) := by
  unfold BelongsTo
  infer_instance

/- The slot belongs to nobody that is kept track of. -/
def Unowned
    (table : SlotTable Index Owner Content)
    (i : Index) : Prop :=
  ((table i).bind Slot.owner).isNone

instance
    (table : SlotTable Index Owner Content)
    (i : Index) :
    Decidable (table.Unowned i) := by
  unfold Unowned
  infer_instance

/- No owner has a slot outside of its extent. -/
def Within
    (table : SlotTable Index Owner Content)
    (extent : Owner → Index → Prop) : Prop :=
  ∀ o i, table.BelongsTo i o → extent o i

/-
  The slots of each owner are those of its extent, with its
  content in them.
-/
structure Keeps
    (table : SlotTable Index Owner Content)
    (extent : Owner → Index → Prop)
    (content : Owner → Content) : Prop where
  held :
    ∀ o i, extent o i → table i = some ⟨some o, content o⟩
  only : table.Within extent

end SlotTable

end KDoth

------------------------------------------------------------
-- What Keeps A Table
------------------------------------------------------------

namespace KDoth

namespace SlotTable

variable {Index Owner Content : Type}
variable {table : SlotTable Index Owner Content}
variable {extent extent' : Owner → Index → Prop}
variable {content content' : Owner → Content}
variable {slots : Index → Prop} [DecidablePred slots]

omit [DecidablePred slots] in
theorem belongsTo_of_eq
    {i : Index}
    {o : Owner}
    {c : Content}
    (hSlot : table i = some ⟨some o, c⟩) :
    table.BelongsTo i o := by
  simp [BelongsTo, hSlot]

namespace Within

omit [DecidablePred slots] in
theorem mono
    (hWithin : table.Within extent)
    (hExtent : ∀ o i, extent o i → extent' o i) :
    table.Within extent' :=
  fun o i hSlot => hExtent o i (hWithin o i hSlot)

/- An owner is handed slots of its extent. -/
theorem claim
    {o : Owner}
    {c : Content}
    (hWithin : table.Within extent)
    (hSelf : ∀ i, slots i → extent' o i)
    (hOld : ∀ o i, extent o i → extent' o i) :
    (table.claim slots ⟨some o, c⟩).Within extent' := by
  intro o' i hSlot
  by_cases hIn : slots i
  · have hSame : some o = some o' := by
      simpa [BelongsTo, SlotTable.claim, hIn] using hSlot
    cases hSame
    exact hSelf i hIn
  · apply hOld o' i (hWithin o' i _)
    simpa [BelongsTo, SlotTable.claim, hIn] using hSlot

/- Somebody else is handed slots. -/
theorem claim_other
    {c : Content}
    (hWithin : table.Within extent) :
    (table.claim slots ⟨none, c⟩).Within extent := by
  intro o i hSlot
  by_cases hIn : slots i
  · simp [BelongsTo, SlotTable.claim, hIn] at hSlot
  · apply hWithin o i
    simpa [BelongsTo, SlotTable.claim, hIn] using hSlot

/- What is taken back may leave the extents. -/
theorem clear
    (hWithin : table.Within extent)
    (hRest : ∀ o i, ¬ slots i → extent o i → extent' o i) :
    (table.clear slots).Within extent' := by
  intro o i hSlot
  have hNot : ¬ slots i := by
    intro hIn
    simp [BelongsTo, SlotTable.clear, hIn] at hSlot
  apply hRest o i hNot (hWithin o i _)
  simpa [BelongsTo, SlotTable.clear, hNot] using hSlot

end Within

namespace Keeps

omit [DecidablePred slots] in
theorem belongsTo
    {i : Index}
    {o : Owner}
    (hKeeps : table.Keeps extent content)
    (hExtent : extent o i) :
    table.BelongsTo i o :=
  belongsTo_of_eq (hKeeps.held o i hExtent)

/- Extents do not meet. -/
theorem exclusive
    {i : Index}
    {o o' : Owner}
    (hKeeps : table.Keeps extent content)
    (hOne : extent o i)
    (hOther : extent o' i) :
    o = o' := by
  have hSlot := hKeeps.held o i hOne
  rw [hKeeps.held o' i hOther] at hSlot
  cases hSlot
  rfl

/- Only the contents of owners that have slots matter. -/
theorem congr
    (hKeeps : table.Keeps extent content)
    (hExtent : ∀ o i, extent' o i ↔ extent o i)
    (hContent :
      ∀ o i, extent o i → content' o = content o) :
    table.Keeps extent' content' where
  held := by
    intro o i hOwn
    have hOld := (hExtent o i).mp hOwn
    rw [hContent o i hOld]
    exact hKeeps.held o i hOld
  only := hKeeps.only.mono fun o i => (hExtent o i).mpr

/- An owner without slots is handed free ones. -/
theorem claim
    {o : Owner}
    (hKeeps : table.Keeps extent content)
    (slots : Index → Prop)
    [DecidablePred slots]
    (extent' : Owner → Index → Prop)
    (content' : Owner → Content)
    (hFree : ∀ i, slots i → table i = none)
    (hSelf : ∀ i, extent' o i ↔ slots i)
    (hOthers :
      ∀ o', o' ≠ o → ∀ i, extent' o' i ↔ extent o' i)
    (hNew : ∀ i, ¬ extent o i)
    (hContent : ∀ o', o' ≠ o → content' o' = content o') :
    (table.claim slots ⟨some o, content' o⟩).Keeps
      extent' content' where
  held := by
    intro o' i hOwn
    by_cases hSame : o' = o
    · subst hSame
      exact if_pos ((hSelf i).mp hOwn)
    · have hOld := (hOthers o' hSame i).mp hOwn
      have hUsed := hKeeps.held o' i hOld
      have hNot : ¬ slots i := by
        intro hSlot
        rw [hFree i hSlot] at hUsed
        cases hUsed
      rw [hContent o' hSame]
      exact (if_neg hNot).trans hUsed
  only := by
    refine hKeeps.only.claim ?_ ?_
    · exact fun i => (hSelf i).mpr
    · intro o' i hExtent
      have hNe : o' ≠ o := by
        rintro rfl
        exact hNew i hExtent
      exact (hOthers o' hNe i).mpr hExtent

/- An owner gives back all its slots. -/
theorem clear
    {o : Owner}
    (hKeeps : table.Keeps extent content)
    (slots : Index → Prop)
    [DecidablePred slots]
    (extent' : Owner → Index → Prop)
    (hSelf : ∀ i, slots i ↔ extent o i)
    (hGone : ∀ i, ¬ extent' o i)
    (hOthers :
      ∀ o', o' ≠ o → ∀ i, extent' o' i ↔ extent o' i) :
    (table.clear slots).Keeps extent' content where
  held := by
    intro o' i hOwn
    have hNe : o' ≠ o := by
      rintro rfl
      exact hGone i hOwn
    have hOld := (hOthers o' hNe i).mp hOwn
    have hNot : ¬ slots i := by
      intro hSlot
      exact hNe
        (hKeeps.exclusive hOld ((hSelf i).mp hSlot))
    exact (if_neg hNot).trans (hKeeps.held o' i hOld)
  only := by
    refine hKeeps.only.clear ?_
    intro o' i hNot hExtent
    have hNe : o' ≠ o := by
      rintro rfl
      exact hNot ((hSelf i).mpr hExtent)
    exact (hOthers o' hNe i).mpr hExtent

/- Somebody else is handed free slots. -/
theorem claim_other
    {c : Content}
    (hKeeps : table.Keeps extent content)
    (hFree : ∀ i, slots i → table i = none) :
    (table.claim slots ⟨none, c⟩).Keeps extent content where
  held := by
    intro o i hOwn
    have hUsed := hKeeps.held o i hOwn
    have hNot : ¬ slots i := by
      intro hSlot
      rw [hFree i hSlot] at hUsed
      cases hUsed
    exact (if_neg hNot).trans hUsed
  only := hKeeps.only.claim_other

/- Somebody else gives back slots. -/
theorem clear_other
    (hKeeps : table.Keeps extent content)
    (hTheirs : ∀ i, slots i → table.Unowned i) :
    (table.clear slots).Keeps extent content where
  held := by
    intro o i hOwn
    have hNot : ¬ slots i := by
      intro hSlot
      have hNobody := hTheirs i hSlot
      rw [Unowned, hKeeps.belongsTo hOwn] at hNobody
      cases hNobody
    exact (if_neg hNot).trans (hKeeps.held o i hOwn)
  only := hKeeps.only.clear fun _ _ _ hExtent => hExtent

end Keeps

end SlotTable

end KDoth
