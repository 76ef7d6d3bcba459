import KDoth.Collections.KArray
import KDoth.Collections.KList
import KDoth.Runtime.Ownership

/-
  Ownership of allocations, arrays and lists: what they hold
  is what their elements hold.

  Key theorems include:
    * `KList.leads_addObject`
    * `KArray.leads_new`
    * `KArray.leads_addObject`
-/

------------------------------------------------------------
-- Allocations
------------------------------------------------------------

namespace KDoth

namespace KAllocation

open Command

variable {allocator : Allocator}
variable {own : List Nat} {L : Ledger}

theorem leads_useBuffer
    (allocation : KAllocation) :
    Leads (Owns own L) allocation.useBuffer
      (fun _ => Owns own L) := by
  intro p hp
  rw [wp_useBuffer]
  split
  · exact hp.strayed
  · exact hp

instance : Owned KAllocation where
  addresses allocation := [allocation.address]
  holds _ := 0
  leads_release allocation own L := by
    apply leads_objectRelease
    apply allocation.leads_useBuffer.assuming
    intro p hp
    simpa using hp
  leads_lend _ _ _ := leads_objectRetain_lend

/- Truncating keeps the allocation. -/
theorem leads_truncate
    (allocation : KAllocation)
    (size : Nat) :
    Leads (Owns own L) (allocation.truncate allocator size)
      (fun r p =>
        r.1.address = allocation.address ∧ Owns own L p) := by
  unfold truncate
  apply Leads.bind allocation.leads_useBuffer
  intro _
  apply Leads.bind leads_request
  intro granted
  split
  · apply Leads.ret
    intro p hp
    exact ⟨rfl, hp⟩
  · apply Leads.ret
    intro p hp
    exact ⟨rfl, hp⟩

end KAllocation

end KDoth

------------------------------------------------------------
-- Lists
------------------------------------------------------------

namespace KDoth

namespace KList

open Command

variable {α : Type} [KObject α] [Owned α]
variable {allocator : Allocator}
variable {own : List Nat} {L : Ledger}

instance : Owned (KList α) where
  addresses list :=
    list.address :: Owned.allAddresses list.items
  holds list := Owned.allHolds list.items
  leads_release list own L := by
    apply leads_objectRelease
    apply Leads.bind
    · apply Leads.bind
      · exact Owned.leads_releaseAll list.items own L
      · intro _
        apply Leads.ret (Q := fun _ => Owns own L)
        intro p hp
        exact hp
    · intro r p hp
      rw [wp_kAssert]
      split
      · exact hp
      · exact True.intro
  leads_lend _ _ _ := leads_objectRetain_lend

theorem leads_new :
    Leads (Owns own L) (new (α := α) allocator)
      (fun r p =>
        (∀ list, r = some list → list.items = []) ∧
          Owns (Owned.allAddresses r.toList ++ own) L p) := by
  unfold new
  apply Leads.bind leads_objectNew
  intro address
  cases address with
  | none =>
      apply Leads.ret
      intro p hp
      exact ⟨by simp, hp⟩
  | some address =>
      apply Leads.ret
      intro p hp
      exact ⟨by simp, by simpa [Owned.addresses] using hp⟩

/- An added item is lent until its creator releases it. -/
theorem leads_addObject
    (allocator : Allocator)
    (list : KList α)
    (x : α)
    (own : List Nat)
    (L : Ledger) :
    Leads (Owns (Owned.addresses x ++ own) L)
      (list.addObject allocator (some x))
      (fun r p =>
        (r.2 = true →
            r.1 = { list with items := list.items ++ [x] } ∧
              Lent x own L p) ∧
          (r.2 = false →
            r.1 = list ∧
              Owns (Owned.addresses x ++ own) L p)) := by
  apply Leads.bind leads_request
  intro granted
  cases granted with
  | true =>
      apply Leads.bind (Owned.leads_lend x own L)
      intro _
      apply Leads.ret
      intro p hp
      constructor
      · intro _
        exact ⟨rfl, hp⟩
      · intro hFalse
        cases hFalse
  | false =>
      apply Leads.ret
      intro p hp
      constructor
      · intro hTrue
        cases hTrue
      · intro _
        exact ⟨rfl, hp⟩

end KList

end KDoth

------------------------------------------------------------
-- Arrays
------------------------------------------------------------

namespace KDoth

namespace KArray

open Command

variable {α : Type} [KObject α] [Owned α]
variable {allocator : Allocator}
variable {own : List Nat} {L : Ledger}

omit [KObject α] [Owned α] in
theorem leads_readElements
    (array : KArray α) :
    Leads (Owns own L) array.readElements
      (fun _ => Owns own L) := by
  intro p hp
  exact wp_readElements hp hp.strayed

/- The elements are released, then the allocation. -/
theorem leads_deInit
    (array : KArray α) :
    Leads
      (Owns
        (Owned.allAddresses array.items.toList ++
          Owned.allAddresses array.slots ++ own)
        (L + Owned.allHolds array.slots))
      array.deInit (fun _ => Owns own L) := by
  unfold deInit removeAllObjects
  cases hItems : array.items with
  | none => exact Leads.stop
  | some items =>
      have hSlots :=
        Owned.leads_releaseAll array.slots
          (Owned.addresses items ++ own) L
      have hLast := Owned.leads_release items own L
      apply Leads.bind (R := fun r p =>
        r.1.items = some items ∧
          Owns (Owned.addresses items ++ own) L p)
      · apply Leads.bind (R := fun _ =>
          Owns
            (Owned.addresses items ++
              Owned.allAddresses array.slots ++ own)
            (L + Owned.allHolds array.slots))
        · apply Leads.ret
          intro p hp
          simpa using hp
        · intro buffer
          split
          · apply Leads.bind array.leads_readElements
            intro _
            apply Leads.bind
            · apply hSlots.assuming
              intro p hp
              apply hp.perm
              rw [← List.append_assoc]
              apply List.Perm.append_right
              exact List.perm_append_comm
            · intro _
              apply Leads.ret
              intro p hp
              exact ⟨rfl, hp⟩
          · exact Leads.stop
      · intro r p hp
        simp only [hp.1]
        apply hLast
        have hZero : Owned.holds items = 0 := rfl
        rw [hZero, add_zero]
        exact hp.2

instance : Owned (KArray α) where
  addresses array :=
    array.address ::
      (Owned.allAddresses array.items.toList ++
        Owned.allAddresses array.slots)
  holds array := Owned.allHolds array.slots
  leads_release array _ _ :=
    leads_objectRelease (leads_deInit array)
  leads_lend _ _ _ := leads_objectRetain_lend

theorem leads_new :
    Leads (Owns own L) (new (α := α) allocator)
      (fun r p =>
        (∀ array, r = some array → array.slots = []) ∧
          Owns (Owned.allAddresses r.toList ++ own) L p) := by
  unfold new alloc
  apply Leads.bind (R := fun r p =>
    (∀ array : KArray α, r = some array → array.slots = []) ∧
      Owns (Owned.allAddresses r.toList ++ own) L p)
  · apply Leads.bind leads_objectNew
    intro address
    cases address with
    | none =>
        apply Leads.ret
        intro p hp
        exact ⟨by simp, hp⟩
    | some address =>
        apply Leads.bind (R := fun r p =>
          Owns
            (Owned.allAddresses (r : Option KAllocation).toList ++
              address :: own) L p)
        · apply Leads.bind leads_objectNew
          intro item
          cases item with
          | none =>
              apply Leads.ret
              intro p hp
              exact hp
          | some item =>
              apply Leads.ret
              intro p hp
              exact hp
        · intro items
          apply Leads.ret
          intro p hp
          constructor
          · intro array hEq
            cases hEq
            rfl
          · apply hp.perm
            simp [Owned.addresses]
  · intro r
    cases r with
    | none =>
        apply Leads.ret
        intro p hp
        exact ⟨by simp, hp.2⟩
    | some array =>
        dsimp only
        split
        · apply Leads.bind (R := fun _ => Owns own L)
          · apply (Owned.leads_release array own L).assuming
            intro p hp
            have hSlots := hp.1 array rfl
            have hZero : Owned.holds array = 0 := by
              simp [Owned.holds, hSlots]
            rw [hZero, add_zero]
            simpa using hp.2
          · intro _
            apply Leads.ret
            intro p hp
            exact ⟨by simp, hp⟩
        · apply Leads.ret
          intro p hp
          exact hp

/- An added element is lent until its creator releases it. -/
theorem leads_addObject
    (allocator : Allocator)
    (array : KArray α)
    (x : α)
    (own : List Nat)
    (L : Ledger) :
    Leads (Owns (Owned.addresses x ++ own) L)
      (array.addObject allocator (some x))
      (fun r p =>
        r.1.address = array.address ∧
          Owned.allAddresses r.1.items.toList =
            Owned.allAddresses array.items.toList ∧
          (r.2 = true →
            r.1.slots = array.slots ++ [x] ∧ Lent x own L p) ∧
          (r.2 = false →
            r.1.slots = array.slots ∧
              Owns (Owned.addresses x ++ own) L p)) := by
  unfold addObject
  cases hItems : array.items with
  | none =>
      apply Leads.ret
      intro p hp
      exact ⟨rfl, by rw [hItems], by simp, fun _ => ⟨rfl, hp⟩⟩
  | some items =>
      apply Leads.bind (KAllocation.leads_truncate items _)
      intro r
      rcases r with ⟨grown, truncated⟩
      cases truncated with
      | true =>
          apply Leads.bind (R := fun _ p =>
            grown.address = items.address ∧ Lent x own L p)
          · intro p hp
            have hLend := Owned.leads_lend x own L p hp.2
            apply wp_imp hLend
            intro _ q hq
            exact ⟨hp.1, hq⟩
          · intro _
            apply Leads.ret
            intro p hp
            refine ⟨rfl, ?_, ?_, ?_⟩
            · simp [Owned.addresses, hp.1]
            · intro _
              exact ⟨rfl, hp.2⟩
            · intro hFalse
              cases hFalse
      | false =>
          apply Leads.ret
          intro p hp
          refine ⟨rfl, ?_, by simp, fun _ => ⟨rfl, hp.2⟩⟩
          have hSame : grown.address = items.address := hp.1
          simp [Owned.addresses, hSame]

end KArray

end KDoth
