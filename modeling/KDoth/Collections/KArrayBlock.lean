import KDoth.Collections.KAllocationBlock
import KDoth.Collections.KArray

/-
  Arrays of `karray.c` over the blocks of their allocation:
  the elements are words of the block, from its start.

  Key definitions include:
    * `KArrayHead`
    * `KArrayHead.addObject`
    * `KArrayHead.moveDown`
    * `KArrayHead.removeObjectAtIndex`
    * `KArrayHead.getObjectAtIndex`
    * `KArrayHead.removeAllObjects`
    * `Block.Holds`

  Key theorems include:
    * `KArrayHead.wp_moveDown`
    * `KArrayHead.wp_releaseItems`
-/

------------------------------------------------------------
-- Arrays
------------------------------------------------------------

namespace KDoth

/-
  `struct KArray`, with the record of its allocation, which
  every array that `KArrayNew` returns has.
-/
structure KArrayHead where
  address : Nat
  length : Nat
  items : KAllocationHead
deriving DecidableEq

namespace KArrayHead

open MemoryCall BlockCall

variable {α : Type}

/- `KArrayNew` zeroes the records of both objects. -/
def new (address items : Nat) : KArrayHead where
  address := address
  length := 0
  items := KAllocationHead.new items

/- `KArrayAddObject`, where `realloc` is answered so. -/
def addObject
    [KObject α]
    (answer : Option Nat)
    (array : KArrayHead)
    (object : Option α) :
    BlockCall α (KArrayHead × Bool) := do
  match object with
  | none => pure (array, false)
  | some object =>
      let (items, truncated) ←
        KAllocationHead.truncate (α := α) answer array.items
          (KArray.grownSize array.length)
      if truncated then
        lift (KObject.retain object)
        storeWord items.buffer array.length object
        pure
          ({ array with
              length := array.length + 1
              items := items },
            true)
      else
        pure ({ array with items := items }, false)

/-
  The loop of `KArrayRemoveObjectAtIndex`: so many words,
  from the index on, each go one place down.
-/
def moveDown
    (buffer : Option Nat) :
    Nat → Nat → BlockCall α Unit
| 0, _ => pure ()
| turns + 1, i => do
    let word ← loadWord (α := α) buffer i
    storeWord buffer (i - 1) word
    moveDown buffer turns (i + 1)

/- `KArrayRemoveObjectAtIndex` -/
def removeObjectAtIndex
    [KObject α]
    (array : KArrayHead)
    (index : Nat) :
    BlockCall α (KArrayHead × Bool) :=
  if array.length ≤ index then pure (array, false)
  else do
    let buffer := array.items.buffer
    let item ← loadWord (α := α) buffer index
    lift (KObject.release item)
    moveDown (α := α) buffer
      (array.length - (index + 1)) (index + 1)
    pure ({ array with length := array.length - 1 }, true)

/- `KArrayGetObjectAtIndex` -/
def getObjectAtIndex
    (array : KArrayHead)
    (index : Nat) :
    BlockCall α (Option α) :=
  if array.length ≤ index then pure none
  else do
    let item ← loadWord (α := α) array.items.buffer index
    pure (some item)

/- `KArrayGetLength` -/
def getLength (array : KArrayHead) : Nat :=
  array.length

/- The loop of `KArrayRemoveAllObjects`. -/
def releaseItems
    [KObject α]
    (buffer : Option Nat) :
    Nat → Nat → BlockCall α Unit
| 0, _ => pure ()
| turns + 1, i => do
    let item ← loadWord (α := α) buffer i
    lift (KObject.release item)
    releaseItems buffer turns (i + 1)

/- `KArrayRemoveAllObjects` -/
def removeAllObjects
    [KObject α]
    (array : KArrayHead) :
    BlockCall α (KArrayHead × Nat) := do
  releaseItems (α := α) array.items.buffer array.length 0
  pure ({ array with length := 0 }, array.length)

end KArrayHead

end KDoth

------------------------------------------------------------
-- Blocks That Hold Elements
------------------------------------------------------------

namespace KDoth

namespace Block

variable {α : Type} {b : Block α} {l r items : List α}

/- The first words are inside the block and are the items. -/
def Holds (b : Block α) (items : List α) : Prop :=
  ∀ i x, items[i]? = some x →
    b.Inside i ∧ b.word i = some x

theorem Holds.left
    (hHolds : b.Holds (l ++ r)) :
    b.Holds l := by
  intro i x hItem
  apply hHolds i x
  have hLt := (List.getElem?_eq_some_iff.mp hItem).1
  rw [List.getElem?_append_left hLt]
  exact hItem

theorem Holds.middle
    {x : α}
    (hHolds : b.Holds (l ++ x :: r)) :
    b.Inside l.length ∧ b.word l.length = some x := by
  apply hHolds
  simp

/- A block with elements has the bytes for them. -/
theorem Holds.length_le
    (hHolds : b.Holds items) :
    items.length * 8 ≤ b.size := by
  rcases List.eq_nil_or_concat items with hNil | ⟨l, x, hEq⟩
  · simp [hNil]
  · rw [List.concat_eq_append] at hEq
    subst hEq
    have hInside : (l.length + 1) * 8 ≤ b.size :=
      hHolds.middle.1
    simpa using hInside

/-
  A block of another size still holds the elements if it has
  the bytes for them.
-/
theorem Holds.resized
    {size : Nat}
    (hHolds : b.Holds items)
    (hSize : items.length * 8 ≤ size) :
    (b.resized size).Holds items := by
  intro i x hItem
  have hLt := (List.getElem?_eq_some_iff.mp hItem).1
  rcases hHolds i x hItem with ⟨hInside, hWord⟩
  have hNew : (i + 1) * 8 ≤ size := by omega
  have hOld : (i + 1) * 8 ≤ b.size := hInside
  refine ⟨hNew, ?_⟩
  have hKept : (i + 1) * 8 ≤ min b.size size := by omega
  show (if _ then _ else _) = _
  rw [if_pos hKept]
  exact hWord

/- An element is overwritten. -/
theorem Holds.write
    {x y : α}
    (hHolds : b.Holds (l ++ x :: r)) :
    (b.write l.length y).Holds (l ++ y :: r) := by
  intro i z hItem
  by_cases hHere : i = l.length
  · subst hHere
    have hSame : y = z := by simpa using hItem
    refine ⟨hHolds.middle.1, ?_⟩
    rw [← hSame]
    simp [Block.write]
  · have hBefore : (l ++ x :: r)[i]? = some z := by
      rw [List.getElem?_append] at hItem ⊢
      by_cases hLt : i < l.length
      · rw [if_pos hLt] at hItem ⊢
        exact hItem
      · rw [if_neg hLt] at hItem ⊢
        have hPos : i - l.length ≠ 0 := by omega
        rcases Nat.exists_eq_succ_of_ne_zero hPos with
          ⟨k, hk⟩
        rw [hk] at hItem ⊢
        exact hItem
    rcases hHolds i z hBefore with ⟨hInside, hWord⟩
    refine ⟨hInside, ?_⟩
    simpa [Block.write, hHere] using hWord

/- An element is written behind the others. -/
theorem Holds.append
    {x : α}
    (hHolds : b.Holds items)
    (hInside : b.Inside items.length) :
    (b.write items.length x).Holds (items ++ [x]) := by
  intro i z hItem
  by_cases hHere : i = items.length
  · subst hHere
    have hSame : x = z := by simpa using hItem
    refine ⟨hInside, ?_⟩
    rw [← hSame]
    simp [Block.write]
  · have hBefore : items[i]? = some z := by
      rw [List.getElem?_append] at hItem
      by_cases hLt : i < items.length
      · rw [if_pos hLt] at hItem
        exact hItem
      · rw [if_neg hLt,
          List.getElem?_eq_none (by simp; omega)] at hItem
        cases hItem
    rcases hHolds i z hBefore with ⟨hIn, hWord⟩
    refine ⟨hIn, ?_⟩
    simpa [Block.write, hHere] using hWord

end Block

end KDoth

------------------------------------------------------------
-- Loops
------------------------------------------------------------

namespace KDoth

namespace KArrayHead

open Command MemoryCall BlockCall

variable {α : Type} {s : Memory (Block α)}
variable {E : Fault → Memory (Block α) → Prop}

/-
  The shift writes each later element over the one before it.
  The element at the end is left twice.
-/
theorem wp_moveDown
    {Q : Unit → Memory (Block α) → Prop}
    {a turns i : Nat}
    {b : Block α}
    {l r : List α}
    {x : α}
    (hLive : s.cell a = some b)
    (hHolds : b.Holds (l ++ x :: r))
    (hTurns : turns = r.length)
    (hIndex : i = l.length + 1)
    (hPost :
      ∀ s' b',
        s'.process = s.process →
          s'.cell = Function.update s.cell a (some b') →
            b'.size = b.size →
              b'.Holds (l ++ r) → Q () s') :
    wp (moveDown (some a) turns i) Q E s := by
  subst hTurns
  subst hIndex
  induction r generalizing s b l x with
  | nil =>
      apply hPost s b rfl _ rfl
      · rw [List.append_nil]
        exact hHolds.left
      · rw [← hLive, Function.update_eq_self]
  | cons y r ih =>
      have hNext : b.Holds ((l ++ [x]) ++ y :: r) := by
        simpa using hHolds
      have hWord := hNext.middle
      rw [List.length_append, List.length_singleton] at hWord
      simp only [List.length_cons, moveDown, wp_bind,
        wp_loadWord hLive hWord.1 hWord.2,
        Nat.add_sub_cancel,
        wp_storeWord hLive hHolds.middle.1]
      have hWritten :
          (b.write l.length y).Holds
            ((l ++ [y]) ++ y :: r) := by
        have hWrite := hHolds.write (y := y)
        simpa using hWrite
      have hLength : l.length + 1 = (l ++ [y]).length := by
        simp
      rw [hLength]
      apply ih Memory.setCell_self hWritten
      intro s' b' hProcess hCell hSize hEnd
      apply hPost s' b' hProcess _ hSize
      · simpa using hEnd
      · rw [hCell, Memory.setCell_cell, Function.update_idem]

/- The loop releases the elements in order. -/
theorem wp_releaseItems
    [KObject α]
    {Q : Unit → Memory (Block α) → Prop}
    {p : Option Nat}
    {b : Block α}
    {l r : List α}
    (hPoints : PointsTo s.cell p b)
    (hHolds : b.Holds (l ++ r))
    (hPost :
      wp (forM r KObject.release)
        (fun _ q =>
          ∀ s', s'.process = q → s'.cell = s.cell → Q () s')
        (fun e q => ∀ s', s'.process = q → E (.stop e) s')
        s.process) :
    wp (releaseItems p r.length l.length) Q E s := by
  induction r generalizing s l with
  | nil => exact hPost s rfl rfl
  | cons x r ih =>
      cases p with
      | none =>
          have hFresh : b = Block.fresh 0 := hPoints
          have hWord := hHolds.middle.2
          rw [hFresh] at hWord
          cases hWord
      | some a =>
          have hLive : s.cell a = some b := hPoints
          rw [List.forM_cons, wp_bind] at hPost
          have hMiddle := hHolds.middle
          simp only [List.length_cons, releaseItems, wp_bind,
            wp_loadWord hLive hMiddle.1 hMiddle.2, wp_lift]
          apply wp_mono hPost
          · intro _ q hRest
            have hLength :
                l.length + 1 = (l ++ [x]).length := by
              simp
            rw [hLength]
            apply ih (s := s.setProcess q) hPoints
            · simpa using hHolds
            · exact hRest
          · intro e q hStop
            exact hStop _ rfl

end KArrayHead

end KDoth
