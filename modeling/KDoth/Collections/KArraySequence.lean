import KDoth.Collections.ItemSequence
import KDoth.Collections.KArrayBlock

/-
  What each call on an array does to its elements, and runs
  of calls. The capacity is computed from the length on every
  addition, with 32 bits.

  Key definitions include:
    * `KArrayHead.Stores`
    * `KArrayHead.Represents`
    * `KArrayHead.Adequate`
    * `KArrayHead.call`
    * `KArrayHead.machine`

  Key theorems include:
    * `KArray.grownSize_iff`
    * `KArrayHead.simulates_addObject`
    * `KArrayHead.simulates_removeObjectAtIndex`
    * `KArrayHead.simulates_removeAllObjects`
    * `KArrayHead.adequate_iff`
    * `KArrayHead.behaves_as_sequence`
-/

------------------------------------------------------------
-- Capacity
------------------------------------------------------------

namespace KDoth

namespace KArray

/- No size is above 2^31. -/
theorem grownSize_le
    (length : Nat)
    (hNarrow : (length + 1) * 8 < 2 ^ 32)
    (hLarge : 2 ^ 31 < (length + 1) * 8) :
    grownSize length = 0 := by
  apply KAllocation.nextPowerOfTwoSize_of_gt
  rw [UInt32.toNat_ofNat', Nat.mod_eq_of_lt hNarrow]
  exact hLarge

/-
  The size asked for has the bytes of one more element
  exactly below 2^28 elements.
-/
theorem grownSize_iff
    (length : Nat) :
    (length + 1) * 8 ≤ grownSize length ↔
      length < 2 ^ 28 := by
  constructor
  · intro hLe
    by_contra hNot
    by_cases hNarrow : (length + 1) * 8 < 2 ^ 32
    · have hZero := grownSize_le length hNarrow (by omega)
      omega
    · have hBound : grownSize length < 2 ^ 32 :=
        UInt32.toNat_lt _
      omega
  · intro hLength
    have hNarrow :
        (UInt32.ofNat ((length + 1) * 8)).toNat =
          (length + 1) * 8 := by
      rw [UInt32.toNat_ofNat']
      exact Nat.mod_eq_of_lt (by omega)
    have hLe :=
      KAllocation.le_nextPowerOfTwoSize
        (x := UInt32.ofNat ((length + 1) * 8))
        (by rw [hNarrow]; omega)
    rw [hNarrow] at hLe
    exact hLe

end KArray

end KDoth

------------------------------------------------------------
-- Stored Elements
------------------------------------------------------------

namespace KDoth

namespace KArrayHead

open Command MemoryCall BlockCall

variable {α : Type}

/- The allocation's block holds the elements. -/
structure Stores
    (cell : Nat → Option (Block α))
    (array : KArrayHead)
    (items : List α) : Prop where
  length : array.length = items.length
  backed :
    ∃ b,
      KAllocationHead.Backed cell array.items b ∧
        b.Holds items

/- The block stores the elements of an array. -/
structure Represents
    (s : Memory (Block α))
    (array : KArrayHead)
    (value : KArray α) : Prop where
  address : value.address = array.address
  items :
    value.items =
      some
        { address := array.items.address
          size := array.items.size
          hasBuffer := array.items.buffer.isSome }
  stores : Stores s.cell array value.slots

variable {s : Memory (Block α)}
variable {array : KArrayHead} {value : KArray α}
variable {items : List α}

/- The allocation of the value was not freed. -/
theorem Represents.readElements
    [KObject α]
    (hRepresents : Represents s array value) :
    value.readElements = pure () := by
  apply KArray.readElements_of_kept
  intro items hItems
  rw [hRepresents.items] at hItems
  cases hItems
  rfl

/- An array with elements has a live block. -/
theorem Stores.block
    (hStores : Stores s.cell array items)
    (hItems : items ≠ []) :
    ∃ a b,
      array.items.buffer = some a ∧
        s.cell a = some b ∧
        b.size = array.items.size ∧
        b.Holds items := by
  rcases hStores.backed with ⟨b, ⟨hPoints, hSize⟩, hHolds⟩
  cases hBuffer : array.items.buffer with
  | none =>
      rw [hBuffer] at hPoints
      have hFresh : b = Block.fresh 0 := hPoints
      have hBytes := hHolds.length_le
      rw [hFresh] at hBytes
      have hZero : items.length * 8 ≤ 0 := hBytes
      have hNone : items.length = 0 := by omega
      exact absurd (List.length_eq_zero_iff.mp hNone) hItems
  | some a =>
      rw [hBuffer] at hPoints
      exact ⟨a, b, rfl, hPoints, hSize, hHolds⟩

/- The block grows or moves, and takes one more element. -/
theorem Stores.append
    {cell : Nat → Option (Block α)}
    {a size : Nat}
    {b : Block α}
    {object : α}
    (hLength : array.length = items.length)
    (hHolds : b.Holds items)
    (hSize : (array.length + 1) * 8 ≤ size)
    (hCell :
      cell a =
        some ((b.resized size).write array.length object)) :
    Stores cell
      { array with
        length := array.length + 1
        items :=
          { array.items with buffer := some a, size := size } }
      (items ++ [object]) := by
  rw [hLength] at hSize hCell
  have hKept : (b.resized size).Holds items :=
    hHolds.resized (by omega)
  refine ⟨?_, _, ⟨hCell, rfl⟩, hKept.append hSize⟩
  show array.length + 1 = _
  rw [hLength, List.length_append, List.length_singleton]

/- A refused addition leaves the array as it was. -/
theorem wp_addObject_refused
    [KObject α]
    {b : Block α}
    {object : α}
    {Q : KArrayHead × Bool → Memory (Block α) → Prop}
    {E : Fault → Memory (Block α) → Prop}
    (hBacked : KAllocationHead.Backed s.cell array.items b)
    (hSize : KArray.grownSize array.length ≠ 0)
    (hPost :
      ∀ s',
        s'.process =
            s.process.requested
              (.truncate (KArray.grownSize array.length)) →
          s'.cell = s.cell → Q (array, false) s') :
    wp (addObject none array (some object)) Q E s := by
  unfold addObject
  rw [wp_bind]
  apply KAllocationHead.wp_truncate hBacked (Or.inr hSize)
  · intro a hAnswer
    cases hAnswer
  · intro s' _ hProcess hCell
    exact hPost s' hProcess hCell
  · intro a s' hAnswer
    cases hAnswer

/-
  A granted addition retains the object and writes it behind
  the others, inside the block exactly below 2^28 elements.
-/
theorem wp_addObject_granted
    [KObject α]
    {a : Nat}
    {b : Block α}
    {object : α}
    {Q : KArrayHead × Bool → Memory (Block α) → Prop}
    {E : Fault → Memory (Block α) → Prop}
    (hBacked : KAllocationHead.Backed s.cell array.items b)
    (hSize : KArray.grownSize array.length ≠ 0)
    (hFree : without s.cell array.items.buffer a = none)
    (hRetain :
      wp (KObject.retain object)
        (fun _ q =>
          array.length < 2 ^ 28 →
            ∀ s',
              s'.process = q →
                s'.cell =
                    Function.update
                      (without s.cell array.items.buffer) a
                      (some
                        ((b.resized
                          (KArray.grownSize
                            array.length)).write
                          array.length object)) →
                  Q
                    ({ array with
                        length := array.length + 1
                        items :=
                          { array.items with
                            buffer := some a
                            size :=
                              KArray.grownSize
                                array.length } },
                      true) s')
        (fun e q => ∀ s', s'.process = q → E (.stop e) s')
        (s.process.requested
          (.truncate (KArray.grownSize array.length))))
    (hOutside :
      ¬ array.length < 2 ^ 28 → ∀ s', E .outOfBounds s') :
    wp (addObject (some a) array (some object)) Q E s := by
  unfold addObject
  rw [wp_bind]
  apply KAllocationHead.wp_truncate hBacked (Or.inr hSize)
  · intro a' hAnswer
    cases hAnswer
    exact hFree
  · intro s' hAnswer
    cases hAnswer
  · intro a' s' hAnswer hProcess hCell
    cases hAnswer
    simp only [if_true, wp_bind, wp_pure, wp_lift]
    rw [hProcess]
    apply wp_mono hRetain
    · intro _ q hDone
      have hLive :
          (s'.setProcess q).cell a =
            some
              (b.resized (KArray.grownSize array.length)) := by
        show s'.cell a = _
        rw [hCell, Function.update_self]
      by_cases hLength : array.length < 2 ^ 28
      · have hCapacity :=
          (KArray.grownSize_iff array.length).mpr hLength
        rw [wp_storeWord hLive hCapacity]
        apply hDone hLength _ rfl
        rw [Memory.setCell_cell, Memory.setProcess_cell, hCell,
          Function.update_idem]
      · have hOut :
            ¬ (b.resized
                (KArray.grownSize array.length)).Inside
              array.length :=
          fun h =>
            hLength ((KArray.grownSize_iff array.length).mp h)
        simp only [storeWord, wp_bind, wp_load hLive,
          if_neg hOut, wp_throw]
        exact hOutside hLength _
    · intro e q hStop
      exact hStop _ rfl

/-
  `KArrayAddObject` below 2^28 elements appends, or leaves
  the array as it was.
-/
theorem simulates_addObject
    [KObject α]
    {answer : Option Nat}
    {object : Option α}
    (hRepresents : Represents s array value)
    (hLength : array.length < 2 ^ 28)
    (hFree :
      object ≠ none →
        ∀ a, answer = some a →
          without s.cell array.items.buffer a = none) :
    Simulates Represents (addObject answer array object)
      (KArray.addObject (fun _ => answer.isSome) value object)
      s := by
  intro Q E hValue
  have hStores := hRepresents.stores
  have hSame : array.length = value.getLength :=
    hStores.length
  have hCapacity := (KArray.grownSize_iff array.length).mpr hLength
  cases object with
  | none => exact hValue array s rfl hRepresents
  | some object =>
      have hNonzero :
          (KArray.grownSize value.getLength == 0 &&
            array.items.buffer.isSome) = false := by
        have hNe : KArray.grownSize value.getLength ≠ 0 := by
          rw [← hSame]
          omega
        simp [hNe]
      rcases hStores.backed with ⟨b, hBacked, hHolds⟩
      unfold KArray.addObject KAllocation.truncate at hValue
      simp only [hRepresents.items, wp_bind,
        KAllocation.wp_useBuffer, Bool.false_eq_true, if_false,
        wp_request, hNonzero, Bool.not_false,
        Bool.and_true] at hValue
      have hSize : KArray.grownSize array.length ≠ 0 := by
        omega
      cases answer with
      | none =>
          apply wp_addObject_refused hBacked hSize
          intro s' hProcess hCell
          rw [hSame] at hProcess
          apply hValue array s' hProcess
          refine ⟨hRepresents.address, rfl, ?_⟩
          rw [hCell]
          exact hStores
      | some a =>
          have hPlace := hFree (Option.some_ne_none object) a rfl
          apply wp_addObject_granted hBacked hSize hPlace
          · simp only [Option.isSome_some, if_true, wp_bind,
              wp_pure] at hValue
            rw [hSame]
            apply wp_mono hValue
            · intro _ q hDone _ s' hProcess hCell
              apply hDone _ s' hProcess
              refine ⟨hRepresents.address, rfl, ?_⟩
              rw [← hSame] at hCell ⊢
              apply
                Stores.append hStores.length hHolds hCapacity
              rw [hCell, Function.update_self]
            · intro e q hStop s' hProcess
              exact hStop s' hProcess
          · intro hLong
            exact absurd hLength hLong

/-
  `KArrayRemoveObjectAtIndex` releases the element and moves
  the later ones down by one.
-/
theorem simulates_removeObjectAtIndex
    [KObject α]
    {index : Nat}
    (hRepresents : Represents s array value) :
    Simulates Represents (removeObjectAtIndex array index)
      (value.removeObjectAtIndex index) s := by
  intro Q E hValue
  have hStores := hRepresents.stores
  have hLength : array.length = value.slots.length :=
    hStores.length
  unfold removeObjectAtIndex
  unfold KArray.removeObjectAtIndex at hValue
  by_cases hOut : array.length ≤ index
  · rw [if_pos hOut]
    rw [List.getElem?_eq_none (by omega)] at hValue
    exact hValue array s rfl hRepresents
  · rw [if_neg hOut]
    have hLt : index < value.slots.length := by omega
    have hGet := List.getElem?_eq_getElem hLt
    rw [hGet] at hValue
    have hSplit :
        value.slots =
          value.slots.take index ++
            value.slots[index] ::
              value.slots.drop (index + 1) := by
      rw [← List.drop_eq_getElem_cons hLt,
        List.take_append_drop]
    have hBefore : (value.slots.take index).length = index :=
      List.length_take_of_le (Nat.le_of_lt hLt)
    have hBehind :
        (value.slots.drop (index + 1)).length =
          array.length - (index + 1) := by
      rw [List.length_drop, hLength]
    have hNonempty : value.slots ≠ [] := by
      intro hNil
      rw [hNil] at hLt
      cases hLt
    rcases hStores.block hNonempty with
      ⟨a, b, hBuffer, hLive, hSize, hHolds⟩
    rcases hHolds index _ hGet with ⟨hInside, hWord⟩
    simp only [hRepresents.readElements, wp_bind,
      wp_pure] at hValue
    simp only [wp_bind, hBuffer,
      wp_loadWord hLive hInside hWord, wp_lift]
    apply wp_mono hValue
    · intro _ q hDone
      rw [hSplit] at hHolds
      apply
        wp_moveDown (s := s.setProcess q) hLive hHolds
          hBehind.symm (congrArg (· + 1) hBefore.symm)
      intro s' b' hProcess hCell hSize' hEnd
      apply hDone _ s' hProcess
      refine
        ⟨hRepresents.address, ?_, ?_, b', ⟨?_, ?_⟩, ?_⟩
      · exact hRepresents.items
      · show array.length - 1 =
          (value.slots.eraseIdx index).length
        rw [List.length_eraseIdx_of_lt hLt, hLength]
      · show PointsTo s'.cell array.items.buffer b'
        rw [hBuffer, hCell]
        exact Function.update_self ..
      · exact hSize'.trans hSize
      · show b'.Holds (value.slots.eraseIdx index)
        rw [List.eraseIdx_eq_take_drop_succ]
        exact hEnd
    · intro e q hStop
      exact hStop _ rfl

/- `KArrayRemoveAllObjects` releases the elements in order. -/
theorem simulates_removeAllObjects
    [KObject α]
    (hRepresents : Represents s array value) :
    Simulates Represents (removeAllObjects array)
      value.removeAllObjects s := by
  intro Q E hValue
  have hStores := hRepresents.stores
  rcases hStores.backed with ⟨b, hBacked, hHolds⟩
  have hLength : array.length = value.slots.length :=
    hStores.length
  have hLoop :
      (value.slots.isEmpty ||
        array.items.buffer.isSome) = true := by
    by_cases hEmpty : value.slots = []
    · simp [hEmpty]
    · rcases hStores.block hEmpty with ⟨a, _, hBuffer, _⟩
      simp [hBuffer]
  unfold KArray.removeAllObjects KAllocation.getBuffer
    at hValue
  simp only [hRepresents.items, wp_bind, wp_pure, hLoop,
    if_true, hRepresents.readElements] at hValue
  unfold removeAllObjects
  rw [wp_bind, hLength]
  apply wp_releaseItems (l := []) hBacked.points hHolds
  apply wp_mono hValue
  · intro _ q hDone s' hProcess hCell
    apply hDone _ s' hProcess
    refine ⟨hRepresents.address, rfl, rfl, b, ?_, ?_⟩
    · rw [hCell]
      exact hBacked
    · intro i x hItem
      cases hItem
  · intro e q hStop
    exact hStop

/- `KArrayGetObjectAtIndex` reads the element. -/
theorem wp_getObjectAtIndex
    {Q : Option α → Memory (Block α) → Prop}
    {E : Fault → Memory (Block α) → Prop}
    {index : Nat}
    (hStores : Stores s.cell array items)
    (hPost : Q items[index]? s) :
    wp (getObjectAtIndex array index) Q E s := by
  have hLength := hStores.length
  unfold getObjectAtIndex
  by_cases hOut : array.length ≤ index
  · rw [if_pos hOut]
    rw [List.getElem?_eq_none (by omega)] at hPost
    exact hPost
  · rw [if_neg hOut]
    have hLt : index < items.length := by omega
    have hGet := List.getElem?_eq_getElem hLt
    have hNonempty : items ≠ [] := by
      intro hNil
      rw [hNil] at hLt
      cases hLt
    rcases hStores.block hNonempty with
      ⟨a, b, hBuffer, hLive, _, hHolds⟩
    rcases hHolds index _ hGet with ⟨hInside, hWord⟩
    rw [hGet] at hPost
    simp only [wp_bind, hBuffer,
      wp_loadWord hLive hInside hWord]
    exact hPost

end KArrayHead

end KDoth

------------------------------------------------------------
-- One Call
------------------------------------------------------------

namespace KDoth

/- A call on an array over its block. -/
def KArrayHead.call
    (array : KArrayHead) :
    KArrayCall KObjectRef →
      BlockCall KObjectRef
        (KArrayHead × ItemValue KObjectRef)
| .addObject object answer => do
    let (array, added) ← array.addObject answer object
    pure (array, .flag added)
| .removeObjectAtIndex index => do
    let (array, removed) ←
      KArrayHead.removeObjectAtIndex (α := KObjectRef)
        array index
    pure (array, .flag removed)
| .removeAllObjects => do
    let (array, removed) ←
      KArrayHead.removeAllObjects (α := KObjectRef) array
    pure (array, .number removed)
| .getObjectAtIndex index => do
    let object ← array.getObjectAtIndex index
    pure (array, .item object)
| .getLength => pure (array, .number array.getLength)

/- The same call on the elements. -/
def KArray.call
    (array : KArray KObjectRef) :
    KArrayCall KObjectRef →
      Call (KArray KObjectRef × ItemValue KObjectRef)
| .addObject object answer => do
    let (array, added) ←
      array.addObject (fun _ => answer.isSome) object
    pure (array, .flag added)
| .removeObjectAtIndex index => do
    let (array, removed) ← array.removeObjectAtIndex index
    pure (array, .flag removed)
| .removeAllObjects => do
    let (array, removed) ← array.removeAllObjects
    pure (array, .number removed)
| .getObjectAtIndex index =>
    pure (array, .item (array.getObjectAtIndex index))
| .getLength => pure (array, .number array.getLength)

namespace KArrayHead

open Command MemoryCall BlockCall

variable {s : Memory (Block KObjectRef)}
variable {array : KArrayHead} {value : KArray KObjectRef}
variable {items : List KObjectRef}

/- The answer of `realloc` is free, or the block itself. -/
def Free
    (cell : Nat → Option (Block KObjectRef))
    (array : KArrayHead) :
    KArrayCall KObjectRef → Prop
| .addObject (some _) (some a) =>
    without cell array.items.buffer a = none
| _ => True

theorem simulates_call
    (hRepresents : Represents s array value)
    (hLength : array.length < 2 ^ 28)
    (c : KArrayCall KObjectRef)
    (hFree : Free s.cell array c) :
    Simulates Represents (array.call c) (value.call c) s := by
  cases c with
  | addObject object answer =>
      apply (simulates_addObject hRepresents hLength _).map
      intro hObject a hAnswer
      subst hAnswer
      cases object with
      | none => exact absurd rfl hObject
      | some object => exact hFree
  | removeObjectAtIndex index =>
      exact
        (simulates_removeObjectAtIndex hRepresents).map
          ItemValue.flag
  | removeAllObjects =>
      exact
        (simulates_removeAllObjects hRepresents).map
          ItemValue.number
  | getObjectAtIndex index =>
      intro Q E hValue
      show wp (getObjectAtIndex array index >>= _) Q E s
      rw [wp_bind]
      apply wp_getObjectAtIndex hRepresents.stores
      exact hValue array s rfl hRepresents
  | getLength =>
      intro Q E hValue
      have hSame : array.getLength = value.getLength :=
        hRepresents.stores.length
      show Q (array, .number array.getLength) s
      rw [hSame]
      exact hValue array s rfl hRepresents

end KArrayHead

/-
  On objects of the client a call on the elements returns
  what the sequence returns.
-/
theorem KArray.wp_call
    {value : KArray KObjectRef}
    (hBuilt : value.WellBuilt)
    (hLength : value.getLength < 2 ^ 28)
    (c : KArrayCall KObjectRef)
    (p : Process) :
    Command.wp (value.call c)
      (fun r _ =>
        r.2 = (ItemSequence.arrayCall value.slots c).1 ∧
          r.1.slots =
            (ItemSequence.arrayCall value.slots c).2)
      (fun _ _ => False) p := by
  rcases hBuilt.items with ⟨items, hItems, hBuffer⟩
  cases c with
  | addObject object answer =>
      have hNe : grownSize value.getLength ≠ 0 := by
        have hCapacity :=
          (grownSize_iff value.getLength).mpr hLength
        omega
      unfold KArray.call KArray.addObject
      rw [hItems]
      cases object with
      | none => exact ⟨rfl, rfl⟩
      | some object =>
          unfold KAllocation.truncate
          simp only [Command.wp_bind, KAllocation.wp_useBuffer,
            wp_request]
          cases answer with
          | none => exact ⟨rfl, rfl⟩
          | some a =>
              simp only [Option.isSome_some, Bool.true_and,
                beq_eq_false_iff_ne.mpr hNe, Bool.false_and,
                Bool.not_false, if_true, Command.wp_bind,
                Command.wp_pure, wp_retain_client]
              exact ⟨rfl, rfl⟩
  | removeObjectAtIndex index =>
      show Command.wp (value.removeObjectAtIndex index >>= _)
        _ _ p
      rw [Command.wp_bind, removeObjectAtIndex]
      cases hItem : value.slots[index]? with
      | none =>
          have hOut : value.slots.length ≤ index :=
            List.getElem?_eq_none_iff.mp hItem
          show _ ∧ _
          refine ⟨?_, (List.eraseIdx_of_length_le hOut).symm⟩
          show ItemValue.flag false = .flag (decide _)
          rw [decide_eq_false (Nat.not_lt.mpr hOut)]
      | some item =>
          have hLt : index < value.slots.length :=
            (List.getElem?_eq_some_iff.mp hItem).1
          have hDone :
              ItemValue.flag (α := KObjectRef) true =
                .flag (decide (index < value.slots.length)) := by
            rw [decide_eq_true hLt]
          simp only [Command.wp_bind]
          exact wp_readElements ⟨hDone, rfl⟩ ⟨hDone, rfl⟩
  | removeAllObjects =>
      have hLoop :
          (value.slots.isEmpty || items.hasBuffer) = true := by
        by_cases hEmpty : value.slots = []
        · simp [hEmpty]
        · simp [hBuffer hEmpty]
      unfold KArray.call KArray.removeAllObjects
        KAllocation.getBuffer
      simp only [hItems, Command.wp_bind, Command.wp_pure,
        hLoop, if_true]
      apply wp_readElements
      all_goals
        exact
          Command.wp_mono (wp_releaseClients value.slots _)
            (fun _ _ _ => ⟨rfl, rfl⟩) (fun _ _ h => h)
  | getObjectAtIndex index => exact ⟨rfl, rfl⟩
  | getLength => exact ⟨rfl, rfl⟩

end KDoth

------------------------------------------------------------
-- Adding With Enough Capacity
------------------------------------------------------------

namespace KDoth

namespace KArrayHead

open Command MemoryCall BlockCall

variable {s : Memory (Block KObjectRef)}
variable {array : KArrayHead}
variable {items : List KObjectRef}

/- The elements as a value of the array. -/
def valueOf
    (array : KArrayHead)
    (items : List KObjectRef) :
    KArray KObjectRef where
  address := array.address
  items :=
    some
      { address := array.items.address
        size := array.items.size
        hasBuffer := array.items.buffer.isSome }
  slots := items

theorem Stores.represents
    (hStores : Stores s.cell array items) :
    Represents s array (valueOf array items) :=
  ⟨rfl, rfl, hStores⟩

theorem Represents.wellBuilt
    {value : KArray KObjectRef}
    (hRepresents : Represents s array value) :
    value.WellBuilt := by
  refine ⟨⟨_, hRepresents.items, ?_⟩, fun _ _ => trivial⟩
  intro hSlots
  rcases hRepresents.stores.block hSlots with
    ⟨a, _, hBuffer, _⟩
  simp [hBuffer]

/- One call below 2^28 elements, by its value and its end. -/
theorem wp_call
    (hStores : Stores s.cell array items)
    (hLength : array.length < 2 ^ 28)
    (c : KArrayCall KObjectRef)
    (hFree : Free s.cell array c) :
    wp (array.call c)
      (fun r s' =>
        r.2 = (ItemSequence.arrayCall items c).1 ∧
          Stores s'.cell r.1
            (ItemSequence.arrayCall items c).2)
      (fun _ _ => False) s := by
  have hRepresents := hStores.represents
  have hShort : (valueOf array items).getLength < 2 ^ 28 := by
    show items.length < 2 ^ 28
    rw [← hStores.length]
    exact hLength
  apply simulates_call hRepresents hLength c hFree
  apply
    wp_mono
      (KArray.wp_call hRepresents.wellBuilt hShort c s.process)
  · intro r p hValue array' s' _ hNext
    refine ⟨hValue.1, ?_⟩
    have hEnd := hNext.stores
    rw [hValue.2] at hEnd
    exact hEnd
  · intro _ _ hFalse
    exact hFalse.elim

/-
  The size asked for at a length has the bytes for one more
  element. So every addition at that length either stores the
  element behind the others or leaves them as they were, and
  makes no access outside the block.
-/
def Adequate (length : Nat) : Prop :=
  (length + 1) * 8 ≤ KArray.grownSize length ∧
    ∀ (s : Memory (Block KObjectRef)) (array : KArrayHead)
      (items : List KObjectRef) (object : KObjectRef)
      (answer : Option Nat),
      array.length = length →
        Stores s.cell array items →
          Free s.cell array (.addObject (some object) answer) →
            Returns (addObject answer array (some object)) s
              (fun r s' =>
                Stores s'.cell r.1
                  (if r.2 then items ++ [object] else items))

/- The capacity is right exactly below 2^28 elements. -/
theorem adequate_iff
    (length : Nat) :
    Adequate length ↔ length < 2 ^ 28 := by
  constructor
  · intro hAdequate
    exact (KArray.grownSize_iff length).mp hAdequate.1
  · intro hLength
    refine ⟨(KArray.grownSize_iff length).mpr hLength, ?_⟩
    intro s array items object answer hArray hStores hFree
    subst hArray
    have hCall :=
      wp_call hStores hLength
        (.addObject (some object) answer) hFree
    unfold call at hCall
    rw [wp_bind] at hCall
    rw [returns_iff_wp]
    apply wp_imp hCall
    intro r s' hEnd
    cases answer with
    | none =>
        have hAdded : r.2 = false :=
          ItemValue.flag.inj hEnd.1
        rw [hAdded]
        exact hEnd.2
    | some a =>
        have hAdded : r.2 = true :=
          ItemValue.flag.inj hEnd.1
        rw [hAdded]
        exact hEnd.2

/-
  At 2^28 elements the size wraps around to zero, and at
  2^29 - 1 the byte count itself does, to the size one.
-/
theorem capacity_wraps :
    KArray.grownSize 268435456 = 0 ∧
      KArray.grownSize 536870911 = 1 ∧
      ¬ Adequate 268435456 ∧
      ¬ Adequate 536870911 := by
  have hZero : KArray.grownSize 268435456 = 0 := by decide
  have hOne : KArray.grownSize 536870911 = 1 := by decide
  refine ⟨hZero, hOne, ?_, ?_⟩
  · intro hAdequate
    have hSize := hAdequate.1
    rw [hZero] at hSize
    omega
  · intro hAdequate
    have hSize := hAdequate.1
    rw [hOne] at hSize
    omega

end KArrayHead

end KDoth

------------------------------------------------------------
-- Runs
------------------------------------------------------------

namespace KDoth

namespace KArrayHead

open Command MemoryCall BlockCall

variable {r r' : KArrayHead × Memory (Block KObjectRef)}
variable {c : KArrayCall KObjectRef}
variable {items : List KObjectRef}

/- An array in memory as a machine. -/
def machine :
    Machine (KArrayHead × Memory (Block KObjectRef))
      (KArrayCall KObjectRef)
      (Except Fault (ItemValue KObjectRef)) :=
  MemoryCall.machine call

/- There is room for another element in 32 bits. -/
def Short
    (r : KArrayHead × Memory (Block KObjectRef))
    (_ : KArrayCall KObjectRef) : Prop :=
  r.1.length < 2 ^ 28

instance
    (r : KArrayHead × Memory (Block KObjectRef))
    (c : KArrayCall KObjectRef) :
    Decidable (Short r c) := by
  unfold Short
  infer_instance

/-
  Every slot below the length lies inside the buffer, which
  is live and of the size recorded, and has been written.
-/
def Initialized
    (cell : Nat → Option (Block KObjectRef))
    (array : KArrayHead)
    (items : List KObjectRef) : Prop :=
  array.length = items.length ∧
    ∀ i x, items[i]? = some x →
      ∃ a b,
        array.items.buffer = some a ∧
          cell a = some b ∧
          b.size = array.items.size ∧
          (i + 1) * 8 ≤ b.size ∧
          b.word i = some x

theorem Stores.initialized
    {cell : Nat → Option (Block KObjectRef)}
    {array : KArrayHead}
    (hStores : Stores cell array items) :
    Initialized cell array items := by
  refine ⟨hStores.length, ?_⟩
  intro i x hItem
  have hNonempty : items ≠ [] := by
    intro hNil
    rw [hNil] at hItem
    cases hItem
  rcases
      Stores.block (s := ⟨Process.initial, cell⟩) hStores
        hNonempty with
    ⟨a, b, hBuffer, hLive, hSize, hHolds⟩
  rcases hHolds i x hItem with ⟨hInside, hWord⟩
  exact ⟨a, b, hBuffer, hLive, hSize, hInside, hWord⟩

/- An answer that is no free address is no step. -/
theorem free_of_step
    (hStores : Stores r.2.cell r.1 items)
    (hShort : Short r c)
    (hStep : machine.step r c ≠ none) :
    Free r.2.cell r.1 c := by
  cases c with
  | addObject object answer =>
      cases object with
      | none => trivial
      | some object =>
          cases answer with
          | none => trivial
          | some a =>
              show without r.2.cell r.1.items.buffer a = none
              cases hCell :
                  without r.2.cell r.1.items.buffer a with
              | none => rfl
              | some other =>
                  exfalso
                  apply hStep
                  apply step_of_occupied
                  rcases hStores.backed with
                    ⟨b, hBacked, _⟩
                  have hCapacity :=
                    (KArray.grownSize_iff r.1.length).mpr
                      hShort
                  unfold call addObject
                    KAllocationHead.truncate
                  simp only [wp_bind]
                  apply wp_mono
                    (wp_realloc_occupied (a := a)
                      hBacked.points (Or.inr (by omega)) _)
                  · intro _ _ hFalse
                    exact hFalse.elim
                  · intro e s hOccupied
                    exact hOccupied
                  · rw [hCell]
                    exact Option.some_ne_none other
  | _ => trivial

/- One step on the block is the step on the sequence. -/
theorem stores_step
    (r : KArrayHead × Memory (Block KObjectRef))
    (items : List KObjectRef)
    (c : KArrayCall KObjectRef)
    (v : Except Fault (ItemValue KObjectRef))
    (r' : KArrayHead × Memory (Block KObjectRef))
    (hStores : Stores r.2.cell r.1 items)
    (hShort : Short r c)
    (hStep : machine.step r c = some (v, r')) :
    ∃ items',
      ItemSequence.arrayMachine.step items c =
          some (v, items') ∧
        Stores r'.2.cell r'.1 items' := by
  have hFree : Free r.2.cell r.1 c := by
    apply free_of_step hStores hShort
    rw [hStep]
    nofun
  have hReturns := wp_call hStores hShort c hFree
  rcases step_of_wp hReturns with ⟨q, s, hEnd, hValue, hNext⟩
  unfold machine at hStep
  rw [hEnd] at hStep
  cases hStep
  refine ⟨_, ?_, hNext⟩
  rw [hValue]
  rfl

/-
  Every run of calls on a new array that starts no call at
  2^28 elements or more returns what the run on the sequence
  returns, so no call faults. Every slot below the length is
  inside the buffer and initialized.
-/
theorem behaves_as_sequence
    (address allocation : Nat)
    (s s' : Memory (Block KObjectRef))
    (array : KArrayHead)
    (calls : List (KArrayCall KObjectRef))
    (values : List (Except Fault (ItemValue KObjectRef)))
    (hShort :
      machine.Meets Short (new address allocation, s) calls)
    (hRun :
      machine.run (new address allocation, s) calls =
        some (values, (array, s'))) :
    ∃ items,
      ItemSequence.arrayMachine.run [] calls =
          some (values, items) ∧
        Initialized s'.cell array items := by
  have hNew :
      Stores s.cell (new address allocation)
        ([] : List KObjectRef) := by
    refine ⟨rfl, Block.fresh 0, ⟨rfl, rfl⟩, ?_⟩
    intro i x hItem
    cases hItem
  rcases
      Machine.run_of_simulation stores_step hNew hShort
        hRun with
    ⟨items, hSequence, hStores⟩
  exact ⟨items, hSequence, hStores.initialized⟩

/-
  Three objects are added and two removed. The next addition
  shrinks the block from four words to two.
-/
theorem refines_sequence_shrinks :
    ∃ (array : KArrayHead) (s : Memory (Block KObjectRef)),
      array.items.size = 16 ∧
        Initialized s.cell array [⟨2⟩, ⟨4⟩] := by
  have hShort :
      machine.Meets Short
        (new 0 1,
          { process := Process.initial
            cell := fun _ => none })
        [.addObject (some ⟨1⟩) (some 100),
          .addObject (some ⟨2⟩) (some 100),
          .addObject (some ⟨3⟩) (some 200),
          .addObject (some ⟨9⟩) none,
          .removeObjectAtIndex 0,
          .removeObjectAtIndex 1,
          .addObject (some ⟨4⟩) (some 300)] := by
    decide +kernel
  have hRun :
      machine.run
        (new 0 1,
          { process := Process.initial
            cell := fun _ => none })
        [.addObject (some ⟨1⟩) (some 100),
          .addObject (some ⟨2⟩) (some 100),
          .addObject (some ⟨3⟩) (some 200),
          .addObject (some ⟨9⟩) none,
          .removeObjectAtIndex 0,
          .removeObjectAtIndex 1,
          .addObject (some ⟨4⟩) (some 300)] =
        some
          ([.ok (.flag true), .ok (.flag true),
            .ok (.flag true), .ok (.flag false),
            .ok (.flag true), .ok (.flag true),
            .ok (.flag true)], _) :=
    rfl
  rcases behaves_as_sequence 0 1 _ _ _ _ _ hShort hRun with
    ⟨items, hSequence, hInitialized⟩
  have hItems : items = [⟨2⟩, ⟨4⟩] := by
    have hEnd := congrArg (Option.map Prod.snd) hSequence
    exact (Option.some.inj hEnd).symm
  rw [hItems] at hInitialized
  exact ⟨_, _, rfl, hInitialized⟩

end KArrayHead

end KDoth
