import KDoth.Collections.KAllocation

/-
  Arrays of `karray.c` over the process state. The elements
  are the sequence `slots`, and `items` is the allocation
  that stores them, NULL when it could not be created.

  Key definitions include:
    * `KArray`
    * `KArray.new`
    * `KArray.addObject`
    * `KArray.removeAllObjects`
    * `KArray.deInit`
-/

------------------------------------------------------------
-- Arrays
------------------------------------------------------------

namespace KDoth

structure KArray (α : Type) where
  address : Nat
  items : Option KAllocation
  slots : List α

namespace KArray

variable {α : Type} [KObject α]

/- `KArrayGetLength`. -/
def getLength (array : KArray α) : Nat :=
  array.slots.length

/- `KArrayGetObjectAtIndex`. -/
def getObjectAtIndex
    (array : KArray α)
    (index : Nat) :
    Option α :=
  array.slots[index]?

/- What is read of an array that has elements. -/
def readElements (array : KArray α) : Call Unit :=
  match array.items with
  | none => pure ()
  | some items =>
      if array.slots.isEmpty then pure () else items.useBuffer

/-
  `KArrayRemoveAllObjects`. The buffer is fetched before the
  loop, whether or not there is an element to release.
-/
def removeAllObjects
    (array : KArray α) :
    Call (KArray α × Nat) := do
  let buffer ← KAllocation.getBuffer array.items
  if array.slots.isEmpty || buffer then
    array.readElements
    forM array.slots KObject.release
    pure ({ array with slots := [] }, array.getLength)
  else
    throw .nullDereference

/-
  `KArrayRemoveObjectAtIndex`. The item is released before
  the later ones are shifted.
-/
def removeObjectAtIndex
    (array : KArray α)
    (index : Nat) :
    Call (KArray α × Bool) :=
  match array.slots[index]? with
  | none => pure (array, false)
  | some item => do
      array.readElements
      KObject.release item
      pure
        ({ array with slots := array.slots.eraseIdx index },
          true)

/- `KArrayDeInit`. -/
def deInit (array : KArray α) : Call Unit := do
  let (array, _) ← array.removeAllObjects
  KObject.releaseOrNull array.items

instance : KObject (KArray α) where
  retain array := objectRetain array.address
  release array := objectRelease array.address array.deInit

/- `KArrayAlloc`, which runs `KArrayInit`. -/
def alloc
    (allocator : Allocator) :
    Call (Option (KArray α)) := do
  match ← objectNew allocator .kArray with
  | none => pure none
  | some address =>
      let items ← KAllocation.new allocator
      pure (some
        { address := address, items := items, slots := [] })

/-
  `KArrayNew`. An array whose allocation could not be created
  is released, which runs `KArrayDeInit` on it.
-/
def new
    (allocator : Allocator) :
    Call (Option (KArray α)) := do
  match ← alloc (α := α) allocator with
  | none => pure none
  | some array =>
      if array.items.isNone then
        KObject.release array
        pure none
      else
        pure (some array)

/- The byte count `KArrayAddObject` asks for. -/
def grownSize (length : Nat) : Nat :=
  (KAllocation.nextPowerOfTwoSize
    (UInt32.ofNat ((length + 1) * 8))).toNat

/- `KArrayAddObject`. -/
def addObject
    (allocator : Allocator)
    (array : KArray α)
    (object : Option α) :
    Call (KArray α × Bool) := do
  match object, array.items with
  | none, _ => pure (array, false)
  | some _, none => pure (array, false)
  | some object, some items =>
      let (items, truncated) ←
        items.truncate allocator (grownSize array.getLength)
      if truncated then
        KObject.retain object
        pure
          ({ array with
              items := some items
              slots := array.slots ++ [object] },
            true)
      else
        pure ({ array with items := some items }, false)

end KArray

end KDoth

------------------------------------------------------------
-- Safe Use
------------------------------------------------------------

namespace KDoth

namespace KArray

open Command

variable {α : Type} [KObject α] [SafeObject α]
variable {allocator : Allocator} {A : Prop}

/-
  The allocation exists, an array with elements has a buffer,
  and the elements are well built.
-/
structure WellBuilt (array : KArray α) : Prop where
  items :
    ∃ items, array.items = some items ∧
      (array.slots ≠ [] → items.hasBuffer = true)
  slots : ∀ x ∈ array.slots, SafeObject.WellBuilt x

omit [KObject α] [SafeObject α] in
/- Elements in a buffer that is not freed leave no trace. -/
theorem readElements_of_kept
    {array : KArray α}
    (hKept :
      ∀ items, array.items = some items → items.freed = false) :
    array.readElements = pure () := by
  unfold readElements
  split
  · rfl
  · rename_i items hItems
    rw [KAllocation.useBuffer_of_kept (hKept items hItems)]
    exact ite_self _

omit [KObject α] [SafeObject α] in
/- At most, a read notes that the buffer was freed. -/
theorem wp_readElements
    {array : KArray α}
    {Q : Unit → Process → Prop}
    {E : Stop → Process → Prop}
    {p : Process}
    (hKept : Q () p)
    (hStray : Q () p.strayed) :
    wp array.readElements Q E p := by
  unfold readElements
  split
  · exact hKept
  · split
    · exact hKept
    · rw [KAllocation.wp_useBuffer]
      split
      · exact hStray
      · exact hKept

omit [KObject α] [SafeObject α] in
/- Elements are read without a request. -/
theorem runs_readElements
    (array : KArray α) :
    Runs allocator A array.readElements (fun _ => True) := by
  unfold readElements
  split
  · exact Runs.ret trivial
  · split
    · exact Runs.ret trivial
    · exact KAllocation.runs_useBuffer _

theorem runs_removeAllObjects
    (array : KArray α)
    (hBuilt : array.WellBuilt) :
    Runs allocator A array.removeAllObjects
      (fun r => r.1.items = array.items ∧ r.1.slots = []) := by
  rcases hBuilt.items with ⟨items, hItems, hBuffer⟩
  have hLoop :
      (array.slots.isEmpty || items.hasBuffer) = true := by
    by_cases hEmpty : array.slots = []
    · simp [hEmpty]
    · simp [hBuffer hEmpty]
  unfold removeAllObjects
  rw [hItems]
  refine Runs.bind (Runs.ret (Q := fun b => b = items.hasBuffer) rfl) ?_
  intro buffer hEq
  subst hEq
  rw [if_pos hLoop]
  refine Runs.bind array.runs_readElements ?_
  intro _ _
  refine Runs.bind (Runs.each array.slots ?_) ?_
  · intro x hx
    exact
      SafeObject.runs_release allocator A x (hBuilt.slots x hx)
  · intro _ _
    exact Runs.ret ⟨rfl, rfl⟩

theorem runs_deInit
    (array : KArray α)
    (hBuilt : array.WellBuilt) :
    Runs allocator A array.deInit (fun _ => True) := by
  rcases hBuilt.items with ⟨items, hItems, _⟩
  refine Runs.bind (runs_removeAllObjects array hBuilt) ?_
  intro r hr
  rcases r with ⟨cleared, removed⟩
  change Runs allocator A (KObject.releaseOrNull cleared.items) _
  rw [hr.1, hItems]
  exact SafeObject.runs_release allocator A items trivial

instance : SafeObject (KArray α) where
  WellBuilt := WellBuilt
  runs_retain _ _ _ := Runs.ofObjectRetain
  runs_release _ _ array hBuilt :=
    Runs.ofObjectRelease (runs_deInit array hBuilt)

/-
  A new array is empty. The allocation of its items is
  requested at a fatal site: on a refusal the cleanup
  dereferences NULL.
-/
theorem runs_new :
    Runs allocator A (new (α := α) allocator)
      (fun r =>
        (r = none → ∃ n, allocator n = false) ∧
          ∀ array, r = some array →
            array.WellBuilt ∧ array.slots = []) := by
  intro p hp
  simp only [new, alloc, KAllocation.new, wp_bind,
    wp_objectNew]
  cases hFirst : allocator p.requests.length with
  | false =>
      simpa [hp, AllocationSite.fatal] using ⟨_, hFirst⟩
  | true =>
      cases hSecond : allocator (p.requests.length + 1) with
      | false =>
          -- The cleanup drops the only reference, so it runs
          -- `KArrayDeInit` on an array without an allocation.
          simp [hSecond, KObject.release, wp_objectRelease,
            deInit, removeAllObjects, KAllocation.getBuffer,
            StopsAt, AllocationSite.fatal]
      | true =>
          simp only [Process.created_requests,
            Process.requested_requests, List.length_append,
            List.length_singleton, hSecond, if_true, wp_pure,
            Option.isNone_some,
            Bool.false_eq_true, if_false]
          refine ⟨?_, by simp, ?_⟩
          · simp [hp, hSecond, AllocationSite.fatal]
          · intro array hEq
            cases hEq
            exact
              ⟨⟨⟨_, rfl, fun h => absurd rfl h⟩, by simp⟩, rfl⟩

/- Below 2^28 elements the grown size is positive. -/
theorem grownSize_pos
    (length : Nat)
    (hLength : length < 2 ^ 28) :
    0 < grownSize length := by
  apply KAllocation.nextPowerOfTwoSize_pos
  rw [UInt32.toNat_ofNat']
  omega

/-
  Adding appends, or leaves the elements as they were when
  there is no object, a request is refused or the size
  wrapped around.
-/
theorem runs_addObject
    (array : KArray α)
    (object : Option α)
    (hBuilt : array.WellBuilt)
    (hObject : ∀ x, object = some x → SafeObject.WellBuilt x) :
    Runs allocator A (array.addObject allocator object)
      (fun r =>
        r.1.WellBuilt ∧
          (r.2 = true →
            ∃ x, object = some x ∧
              r.1.slots = array.slots ++ [x]) ∧
          (r.2 = false →
            r.1.slots = array.slots ∧
              (object = none ∨ (∃ n, allocator n = false) ∨
                grownSize array.getLength = 0))) := by
  rcases hBuilt.items with ⟨items, hItems, hBuffer⟩
  unfold addObject
  cases object with
  | none =>
      exact Runs.ret ⟨hBuilt, by simp, fun _ => ⟨rfl, Or.inl rfl⟩⟩
  | some x =>
      simp only [hItems]
      refine Runs.bind (KAllocation.runs_truncate items _) ?_
      intro r hr
      rcases r with ⟨grown, truncated⟩
      cases truncated with
      | false =>
          have hKept : grown.hasBuffer = items.hasBuffer :=
            (hr.2 rfl).1
          refine
            Runs.ret
              ⟨⟨⟨grown, rfl, ?_⟩, hBuilt.slots⟩, by simp,
                fun _ => ⟨rfl, Or.inr (hr.2 rfl).2⟩⟩
          intro hSlots
          rw [hKept]
          exact hBuffer hSlots
      | true =>
          apply Runs.bind_retain x
          refine Runs.ret ⟨⟨⟨grown, rfl, ?_⟩, ?_⟩, ?_, by simp⟩
          · intro _
            exact hr.1 rfl
          · intro y hy
            rcases List.mem_append.mp hy with hOld | hNew
            · exact hBuilt.slots y hOld
            · rw [List.mem_singleton.mp hNew]
              exact hObject x rfl
          · exact fun _ => ⟨x, rfl, rfl⟩

end KArray

end KDoth
