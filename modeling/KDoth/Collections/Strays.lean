import KDoth.Collections.KArray
import KDoth.Collections.KList
import KDoth.Runtime.Strays

/-
  Allocations and arrays that lose their buffer.

  An array grows by a request of size 0 when its capacity
  wrapped around. If that is granted the addition fails and
  the buffer is freed; nothing was used yet that is freed.

  Key definitions include:
    * `KArray.Unfreed`
    * `KArray.Lost`

  Key theorems include:
    * `KArray.tells_new`
    * `KArray.wp_addObject_unfreed`
    * `KArray.wp_addObject_client`
    * `KArray.wp_deInit_lost`
-/

------------------------------------------------------------
-- Allocations
------------------------------------------------------------

namespace KDoth

namespace KAllocation

open Command

variable {allocator : Allocator} {p : Process}

theorem tells_release
    {allocation : KAllocation}
    (hUnfreed : allocation.freed = false) :
    Tells allocator (KObject.release allocation)
      (fun _ => True) := by
  apply Tells.ofObjectRelease
  unfold deInit
  rw [useBuffer_of_kept hUnfreed]
  exact Evolves.ret True.intro

/- A release makes no request. A use that was noted stays. -/
theorem wp_release_strayed
    (allocation : KAllocation)
    (hStray : p.stray = true) :
    wp (KObject.release allocation)
      (fun _ q =>
        q.stray = true ∧ q.requests = p.requests)
      (fun _ _ => False) p := by
  change wp (objectRelease allocation.address _) _ _ p
  rw [wp_objectRelease]
  split
  · unfold deInit
    rw [wp_useBuffer]
    split
    · exact ⟨rfl, rfl⟩
    · exact ⟨hStray, rfl⟩
  · exact ⟨hStray, rfl⟩

/-
  A buffer that is not freed is truncated without a trace,
  unless it is shrunk to nothing.
-/
theorem wp_truncate_unfreed
    {allocation : KAllocation}
    {size : Nat}
    (hUnfreed : allocation.freed = false)
    (hBuffer : size = 0 → allocation.hasBuffer = true) :
    wp (allocation.truncate allocator size)
      (fun r q =>
        p.Tells allocator q ∧ r.1.freed = false ∧
            (allocation.hasBuffer = true →
              r.1.hasBuffer = true) ∧
            (r.2 = true → r.1.hasBuffer = true) ∨
          r.2 = false ∧
            r.1 = { allocation with freed := true } ∧
            size = 0 ∧
            allocator p.requests.length = true ∧
            q = p.requested (.truncate 0))
      (fun _ _ => False) p := by
  unfold truncate
  rw [useBuffer_of_kept hUnfreed]
  simp only [pure_bind, wp_bind, wp_request]
  by_cases hZero : size = 0
  · subst hZero
    simp only [hBuffer rfl, hUnfreed, beq_self_eq_true,
      Bool.and_self, Bool.not_true, Bool.and_false,
      Bool.false_eq_true, if_false, Bool.false_or, wp_pure]
    cases hGranted : allocator p.requests.length with
    | true =>
        right
        simp
    | false =>
        left
        refine ⟨⟨List.prefix_append _ _, ?_⟩, by simp⟩
        rw [Process.emptied_requested, hGranted]
        simp [Process.requested]
  · have hTells :
        p.Tells allocator (p.requested (.truncate size)) :=
      Process.tells_requested (by simpa using hZero)
    cases hGranted : allocator p.requests.length with
    | true => simp [hZero, hTells, hUnfreed]
    | false => simp [hTells, hUnfreed]

end KAllocation

end KDoth

------------------------------------------------------------
-- Lists
------------------------------------------------------------

namespace KDoth

namespace KList

open Command

variable {α : Type} [KObject α] [SteadyObject α]
variable {allocator : Allocator}

instance : SteadyObject (KList α) where
  tells_retain _ _ := Tells.ofObjectRetain
  tells_release allocator list := by
    apply Tells.ofObjectRelease
    apply Evolves.bind (F := fun _ => True)
    · apply Evolves.bind (F := fun _ => True)
      · apply Evolves.each
        intro x _
        exact SteadyObject.tells_release allocator x
      · intro _ _
        exact Evolves.ret True.intro
    · intro _ _
      exact Tells.ofAssert

omit [KObject α] [SteadyObject α] in
theorem tells_new :
    Tells allocator (new (α := α) allocator)
      (fun _ => True) := by
  apply Evolves.bind Tells.ofObjectNew
  intro address _
  cases address with
  | none => exact Evolves.ret True.intro
  | some address => exact Evolves.ret True.intro

theorem tells_addObject
    (list : KList α)
    (object : Option α) :
    Tells allocator (list.addObject allocator object)
      (fun _ => True) := by
  cases object with
  | none => exact Evolves.ret True.intro
  | some x =>
      apply Evolves.bind (Tells.ofRequest (by simp))
      intro granted _
      cases granted with
      | false => exact Evolves.ret True.intro
      | true =>
          apply Evolves.bind
            (SteadyObject.tells_retain allocator x)
          intro _ _
          exact Evolves.ret True.intro

omit [SteadyObject α] in
/- An empty list is released to the end. -/
theorem wp_release_empty
    {list : KList α}
    {p : Process}
    (hItems : list.items = []) :
    wp (KObject.release list)
      (fun _ q =>
        q.stray = p.stray ∧ q.requests = p.requests)
      (fun _ _ => False) p := by
  change wp (objectRelease list.address _) _ _ p
  rw [wp_objectRelease]
  split
  · simp [deInit, removeAllObjects, getCount, hItems,
      Process.setCount]
  · exact ⟨rfl, rfl⟩

end KList

end KDoth

------------------------------------------------------------
-- Arrays
------------------------------------------------------------

namespace KDoth

namespace KArray

open Command

variable {α : Type} [KObject α] [SteadyObject α]
variable {allocator : Allocator} {p : Process}

/- The buffer of the array is there and was not freed. -/
def Unfreed (array : KArray α) : Prop :=
  ∀ items,
    array.items = some items →
      items.freed = false ∧
        (array.slots ≠ [] → items.hasBuffer = true)

/- The buffer of the elements was freed. -/
def Lost (array : KArray α) : Prop :=
  array.slots ≠ [] ∧
    ∃ items,
      array.items = some items ∧
        items.freed = true ∧ items.hasBuffer = true

theorem tells_removeAllObjects
    {array : KArray α}
    (hUnfreed : array.Unfreed) :
    Tells allocator array.removeAllObjects
      (fun r => r.1.items = array.items) := by
  have hRead : array.readElements = pure () :=
    readElements_of_kept fun items hItems =>
      (hUnfreed items hItems).1
  unfold removeAllObjects
  apply Evolves.bind (F := fun _ => True)
  · cases array.items with
    | none => exact Evolves.stop
    | some items => exact Evolves.ret True.intro
  · intro buffer _
    split
    · rw [hRead, pure_bind]
      apply Evolves.bind (F := fun _ => True)
      · apply Evolves.each
        intro x _
        exact SteadyObject.tells_release allocator x
      · intro _ _
        exact Evolves.ret rfl
    · exact Evolves.stop

theorem tells_release
    {array : KArray α}
    (hUnfreed : array.Unfreed) :
    Tells allocator (KObject.release array)
      (fun _ => True) := by
  apply Tells.ofObjectRelease
  apply Evolves.bind (tells_removeAllObjects hUnfreed)
  rintro ⟨cleared, _⟩ hSame
  have hItems : cleared.items = array.items := hSame
  change Tells allocator (KObject.releaseOrNull cleared.items) _
  rw [hItems]
  cases hArray : array.items with
  | none => exact Evolves.ret True.intro
  | some items =>
      exact KAllocation.tells_release (hUnfreed items hArray).1

/-
  An array without its allocation is released, which stops
  at a NULL pointer.
-/
theorem tells_new :
    Tells allocator (new (α := α) allocator)
      (fun r => ∀ array, r = some array → array.Unfreed) := by
  have hItems :
      Tells allocator (KAllocation.new allocator)
        (fun r =>
          ∀ items, r = some items → items.freed = false) := by
    apply Evolves.bind Tells.ofObjectNew
    intro address _
    cases address with
    | none => exact Evolves.ret (by simp)
    | some address => exact Evolves.ret (by simp)
  have hAlloc :
      Tells allocator (alloc (α := α) allocator)
        (fun r => ∀ array, r = some array → array.Unfreed) := by
    apply Evolves.bind Tells.ofObjectNew
    intro address _
    cases address with
    | none => exact Evolves.ret (by simp)
    | some address =>
        apply Evolves.bind hItems
        intro items hFreed
        apply Evolves.ret
        intro array hEq
        cases hEq
        intro stored hStored
        exact ⟨hFreed stored hStored, fun h => absurd rfl h⟩
  apply Evolves.bind hAlloc
  intro r hUnfreed
  cases r with
  | none => exact Evolves.ret (by simp)
  | some array =>
      dsimp only
      split
      · apply Evolves.bind (tells_release (hUnfreed array rfl))
        intro _ _
        exact Evolves.ret (by simp)
      · exact Evolves.ret hUnfreed

/-
  Adding to an array either leaves no trace, or fails and
  frees the buffer, which is not used for now.
-/
theorem wp_addObject_unfreed
    {array : KArray α}
    (hUnfreed : array.Unfreed)
    (object : Option α) :
    wp (array.addObject allocator object)
      (fun r q =>
        p.Tells allocator q ∧ r.1.Unfreed ∨
          r.2 = false ∧ r.1.Lost ∧
            q.stray = p.stray ∧
            List.IsPrefix p.requests q.requests ∧
            p.Emptied allocator q)
      (fun _ q => p.Tells allocator q) p := by
  have hSame : p.Tells allocator p := Std.Refl.refl p
  unfold addObject
  cases object with
  | none => exact Or.inl ⟨hSame, hUnfreed⟩
  | some x =>
      cases hItems : array.items with
      | none => exact Or.inl ⟨hSame, hUnfreed⟩
      | some items =>
          rcases hUnfreed items hItems with ⟨hFreed, hBacked⟩
          have hNonempty :
              grownSize array.getLength = 0 →
                array.slots ≠ [] := by
            intro hZero hNil
            have hPos :=
              grownSize_pos array.getLength
                (by simp [getLength, hNil])
            omega
          simp only [wp_bind]
          apply
            wp_mono
              (KAllocation.wp_truncate_unfreed hFreed
                fun hZero => hBacked (hNonempty hZero))
          · rintro ⟨grown, truncated⟩ q hq
            rcases hq with
              ⟨hTells, hStill, hBuffer, hGrown⟩ |
                ⟨hRefused, hLost, hZero, hGranted, hEnd⟩
            · cases truncated with
              | false =>
                  left
                  refine ⟨hTells, ?_⟩
                  intro stored hEq
                  cases hEq
                  exact ⟨hStill, fun h => hBuffer (hBacked h)⟩
              | true =>
                  simp only [if_true, wp_bind]
                  apply
                    wp_mono
                      (Evolves.wp_trans hTells
                        (SteadyObject.tells_retain allocator x
                          q))
                  · intro _ t ht
                    left
                    refine ⟨ht.1, ?_⟩
                    intro stored hEq
                    cases hEq
                    exact ⟨hStill, fun _ => hGrown rfl⟩
                  · intro _ _ h
                    exact h
            · have hFalse : truncated = false := hRefused
              have hFreed' :
                  grown = { items with freed := true } := hLost
              subst hFalse hFreed' hEnd
              right
              refine
                ⟨rfl, ⟨hNonempty hZero, _, rfl, rfl, ?_⟩, rfl,
                  List.prefix_append _ _, ?_⟩
              · exact hBacked (hNonempty hZero)
              · exact
                  Process.emptied_requested.mpr ⟨rfl, hGranted⟩
          · intro _ _ h
            exact h.elim

/-
  Whatever happened to the array before, an addition uses its
  buffer if it was freed.
-/
theorem wp_addObject_client
    (array : KArray KObjectRef)
    (o : KObjectRef) :
    wp (array.addObject allocator (some o))
      (fun _ q =>
        q.stray = true ↔
          p.stray = true ∨
            ∃ items,
              array.items = some items ∧ items.freed = true)
      (fun _ _ => False) p := by
  unfold addObject
  cases hItems : array.items with
  | none => simp
  | some items =>
      simp only [wp_bind, KAllocation.truncate,
        KAllocation.wp_useBuffer, wp_request]
      cases hFreed : items.freed with
      | true =>
          simp only [if_true]
          split
          · simp [Process.strayed, Process.requested,
              Process.addReferences, hFreed]
          · simp [Process.strayed, Process.requested, hFreed]
      | false =>
          simp only [Bool.false_eq_true, if_false]
          split
          · simp [Process.requested, Process.addReferences,
              hFreed]
          · simp [Process.requested, hFreed]

/- The elements of a lost buffer are read to release them. -/
theorem wp_deInit_lost
    {array : KArray α}
    (allocator : Allocator)
    (hLost : array.Lost) :
    wp array.deInit
      (fun _ q =>
        q.stray = true ∧
          List.IsPrefix p.requests q.requests)
      (fun _ q =>
        q.stray = true ∧
          List.IsPrefix p.requests q.requests) p := by
  rcases hLost with ⟨hSlots, items, hItems, hFreed, hBuffer⟩
  have hRead : array.readElements = modify Process.strayed := by
    unfold readElements
    rw [hItems]
    simp only [List.isEmpty_iff, hSlots, if_false]
    unfold KAllocation.useBuffer
    rw [if_pos hFreed]
  have hAll :
      Tells allocator (forM array.slots KObject.release)
        (fun _ => True) := by
    apply Evolves.each
    intro x _
    exact SteadyObject.tells_release allocator x
  unfold deInit removeAllObjects
  simp only [hItems, KAllocation.getBuffer, pure_bind, hBuffer,
    Bool.or_true, if_true, hRead, wp_bind, wp_modify, wp_pure]
  have hStart : p.strayed.stray = true := rfl
  apply wp_mono (hAll p.strayed)
  · intro _ q hq
    have hStray : q.stray = true :=
      hq.1.stray_iff.mpr (Or.inl hStart)
    apply wp_mono (items.wp_release_strayed hStray)
    · intro _ r hr
      refine ⟨hr.1, ?_⟩
      rw [hr.2]
      exact hq.1.longer
    · intro _ _ h
      exact h.elim
  · intro _ q hq
    exact ⟨hq.stray_iff.mpr (Or.inl hStart), hq.longer⟩

end KArray

end KDoth
