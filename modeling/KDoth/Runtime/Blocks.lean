import KDoth.Runtime.Memory
import Mathlib.Logic.Function.Basic

/-
  Blocks of memory with `realloc` and `free`. The contents of
  a block are its words of eight bytes, the size of an object
  reference. A word that was never written, or was lost, is
  undefined.

  Key definitions include:
    * `Block`
    * `Block.resized`
    * `BlockCall.loadWord`
    * `BlockCall.storeWord`
    * `BlockCall.realloc`
    * `BlockCall.freeBlock`

  Key theorems include:
    * `BlockCall.wp_realloc`
    * `BlockCall.wp_realloc_zero`
    * `BlockCall.wp_freeBlock`
    * `BlockCall.wp_realloc_frame`
    * `BlockCall.wp_loadWord_dangling`
-/

------------------------------------------------------------
-- Blocks
------------------------------------------------------------

namespace KDoth

/- A block of `size` bytes. Undefined words are `none`. -/
structure Block (α : Type) where
  size : Nat
  word : Nat → Option α

namespace Block

variable {α : Type}

/- The bytes of the word lie inside the block. -/
def Inside (b : Block α) (i : Nat) : Prop :=
  (i + 1) * 8 ≤ b.size

instance (b : Block α) (i : Nat) : Decidable (b.Inside i) := by
  unfold Inside
  infer_instance

/- A block whose contents are undefined. -/
def fresh (size : Nat) : Block α where
  size := size
  word := fun _ => none

/-
  The first bytes are kept, as many as there are in both
  sizes. A word is kept if all its bytes are.
-/
def resized (b : Block α) (size : Nat) : Block α where
  size := size
  word := fun i =>
    if (i + 1) * 8 ≤ min b.size size then b.word i else none

def write (b : Block α) (i : Nat) (x : α) : Block α :=
  { b with word := Function.update b.word i (some x) }

end Block

/- A call on blocks. -/
abbrev BlockCall (α β : Type) := MemoryCall (Block α) β

namespace BlockCall

open MemoryCall

variable {α : Type}

/- Read a word through a pointer to a block. -/
def loadWord
    (buffer : Option Nat)
    (i : Nat) :
    BlockCall α α :=
  match buffer with
  | none => throw (.stop .nullDereference)
  | some a => do
      let b ← load a
      if b.Inside i then
        match b.word i with
        | none => throw .uninitialized
        | some x => pure x
      else throw .outOfBounds

/- Write a word through a pointer to a block. -/
def storeWord
    (buffer : Option Nat)
    (i : Nat)
    (x : α) :
    BlockCall α Unit :=
  match buffer with
  | none => throw (.stop .nullDereference)
  | some a => do
      let b ← load a
      if b.Inside i then store a (b.write i x)
      else throw .outOfBounds

/-
  `realloc`, answered by an address or NULL. A block may
  stay where it is. To ask for no bytes frees the block and
  returns NULL, whatever the answer.
-/
def realloc
    (answer : Option Nat)
    (p : Option Nat)
    (size : Nat) :
    BlockCall α (Option Nat) := do
  requested (.truncate size)
  match p with
  | none =>
      match answer with
      | none => pure none
      | some a =>
          place a (Block.fresh size)
          pure (some a)
  | some old => do
      let b ← load old
      if size = 0 then
        free old
        pure none
      else
        match answer with
        | none => pure none
        | some a =>
            free old
            place a (b.resized size)
            pure (some a)

/- `free` accepts NULL. -/
def freeBlock (p : Option Nat) : BlockCall α Unit :=
  match p with
  | none => pure ()
  | some a => free a

end BlockCall

end KDoth

------------------------------------------------------------
-- Words
------------------------------------------------------------

namespace KDoth

namespace BlockCall

open Command MemoryCall

variable {α : Type} {s : Memory (Block α)}
variable {E : Fault → Memory (Block α) → Prop}
variable {a i : Nat} {b : Block α} {x : α}

theorem wp_loadWord
    {Q : α → Memory (Block α) → Prop}
    (hLive : s.cell a = some b)
    (hInside : b.Inside i)
    (hWord : b.word i = some x) :
    wp (loadWord (some a) i) Q E s ↔ Q x s := by
  simp only [loadWord, wp_bind, wp_load hLive,
    if_pos hInside, hWord, wp_pure]

theorem wp_storeWord
    {Q : Unit → Memory (Block α) → Prop}
    (hLive : s.cell a = some b)
    (hInside : b.Inside i) :
    wp (storeWord (some a) i x) Q E s ↔
      Q () (s.setCell a (some (b.write i x))) := by
  simp only [storeWord, wp_bind, wp_load hLive,
    if_pos hInside, wp_store hLive]

end BlockCall

end KDoth

------------------------------------------------------------
-- Reallocation
------------------------------------------------------------

namespace KDoth

/- The memory without what a pointer points to. -/
def without
    {N : Type}
    (cell : Nat → Option N)
    (p : Option Nat) :
    Nat → Option N :=
  match p with
  | none => cell
  | some a => Function.update cell a none

/- A pointer is NULL or to a live block. -/
def PointsTo
    {α : Type}
    (cell : Nat → Option (Block α))
    (p : Option Nat)
    (b : Block α) : Prop :=
  match p with
  | none => b = Block.fresh 0
  | some a => cell a = some b

namespace Block

variable {α : Type}

/- Nothing is kept of no block. -/
theorem resized_fresh
    (size : Nat) :
    (fresh 0 : Block α).resized size = fresh size := by
  simp [resized, fresh]

end Block

namespace BlockCall

open Command MemoryCall

variable {α : Type} {s : Memory (Block α)}
variable {E : Fault → Memory (Block α) → Prop}
variable {Q : Option Nat → Memory (Block α) → Prop}
variable {answer p : Option Nat} {size : Nat} {b : Block α}

/-
  A request for bytes either fails and leaves the blocks as
  they are, or replaces the block by one of the new size.
-/
theorem wp_realloc
    (hPoints : PointsTo s.cell p b)
    (hSize : p = none ∨ size ≠ 0)
    (hAnswer :
      ∀ a, answer = some a → without s.cell p a = none)
    (hFails :
      answer = none →
        Q none
          (s.setProcess
            (s.process.requested (.truncate size))))
    (hMoves :
      ∀ a s', answer = some a →
        s'.process = s.process.requested (.truncate size) →
          s'.cell =
            Function.update (without s.cell p) a
              (some (b.resized size)) →
            Q (some a) s') :
    wp (realloc answer p size) Q E s := by
  unfold realloc
  rw [wp_bind, wp_requested]
  cases p with
  | none =>
      cases answer with
      | none => exact hFails rfl
      | some a =>
          have hFree :
              (s.setProcess
                (s.process.requested
                  (.truncate size))).cell a = none :=
            hAnswer a rfl
          have hFresh : b = Block.fresh 0 := hPoints
          simp only [wp_bind, wp_place hFree, wp_pure]
          apply hMoves a _ rfl rfl
          rw [hFresh, Block.resized_fresh]
          rfl
  | some old =>
      have hNonzero : size ≠ 0 := by
        rcases hSize with hNull | hNonzero
        · cases hNull
        · exact hNonzero
      have hLive :
          (s.setProcess
            (s.process.requested
              (.truncate size))).cell old = some b :=
        hPoints
      simp only [wp_bind, wp_load hLive, if_neg hNonzero]
      cases answer with
      | none => exact hFails rfl
      | some a =>
          have hFree := hAnswer a rfl
          simp only [wp_bind, wp_free hLive]
          rw [wp_place hFree]
          exact hMoves a _ rfl rfl rfl

/- The answer is the address of another block. -/
theorem wp_realloc_occupied
    {a : Nat}
    (hPoints : PointsTo s.cell p b)
    (hSize : p = none ∨ size ≠ 0)
    (hOccupied : without s.cell p a ≠ none) :
    wp (realloc (α := α) (some a) p size) (fun _ _ => False)
      (fun e _ => e = .occupied) s := by
  cases hOther : without s.cell p a with
  | none => exact absurd hOther hOccupied
  | some other =>
      unfold realloc
      rw [wp_bind, wp_requested]
      cases p with
      | none =>
          have hLive :
              (s.setProcess
                (s.process.requested
                  (.truncate size))).cell a = some other :=
            hOther
          simp only [wp_bind, wp_place_occupied hLive]
      | some old =>
          have hNonzero : size ≠ 0 := by
            rcases hSize with hNull | hNonzero
            · cases hNull
            · exact hNonzero
          have hLive :
              (s.setProcess
                (s.process.requested
                  (.truncate size))).cell old = some b :=
            hPoints
          simp only [wp_bind, wp_load hLive, if_neg hNonzero,
            wp_free hLive]
          rw [wp_place_occupied hOther]

/- To ask for no bytes frees the block. -/
theorem wp_realloc_zero
    {old : Nat}
    (hLive : s.cell old = some b)
    (hPost :
      Q none
        ((s.setProcess
          (s.process.requested (.truncate 0))).setCell old
            none)) :
    wp (realloc answer (some old) 0) Q E s := by
  unfold realloc
  have hStill :
      (s.setProcess
        (s.process.requested (.truncate 0))).cell old =
        some b := hLive
  simp only [wp_bind, wp_requested, wp_load hStill, if_true,
    wp_free hStill, wp_pure]
  exact hPost

/- Freeing leaves the memory without the block. -/
theorem wp_freeBlock
    {Q : Unit → Memory (Block α) → Prop}
    (hPoints : PointsTo s.cell p b)
    (hPost :
      ∀ s',
        s'.process = s.process →
          s'.cell = without s.cell p → Q () s') :
    wp (freeBlock p) Q E s := by
  cases p with
  | none => exact hPost s rfl rfl
  | some a =>
      have hLive : s.cell a = some b := hPoints
      show wp (free a) Q E s
      rw [wp_free hLive]
      exact hPost _ rfl rfl

end BlockCall

end KDoth

------------------------------------------------------------
-- Freed Blocks
------------------------------------------------------------

namespace KDoth

namespace BlockCall

open Command MemoryCall

variable {α : Type} {s : Memory (Block α)}
variable {p answer : Option Nat} {a i size : Nat} {x : α}

/- A word of a freed block cannot be read. -/
theorem wp_loadWord_dangling
    {Q : α → Memory (Block α) → Prop}
    {E : Fault → Memory (Block α) → Prop}
    (hFreed : s.cell a = none) :
    wp (loadWord (some a) i) Q E s ↔ E .dangling s := by
  simp only [loadWord, load, wp_bind, wp_get, hFreed, wp_throw]

/- A block is placed where there is none. -/
theorem wp_place_frame
    {a' : Nat}
    {b : Block α}
    (hFreed : s.cell a = none)
    (hNe : a ≠ a') :
    wp (place a' b) (fun _ s' => s'.cell a = none)
      (fun _ _ => True) s := by
  cases hCell : s.cell a' with
  | none =>
      rw [wp_place hCell, Memory.setCell_of_ne hNe]
      exact hFreed
  | some other =>
      rw [wp_place_occupied hCell]
      trivial

/- A word is written to a block that is there. -/
theorem wp_storeWord_frame
    (hFreed : s.cell a = none) :
    wp (storeWord p i x) (fun _ s' => s'.cell a = none)
      (fun _ _ => True) s := by
  unfold storeWord
  cases p with
  | none => trivial
  | some a' =>
      cases hCell : s.cell a' with
      | none =>
          simp only [load, wp_bind, wp_get, hCell, wp_throw]
      | some b =>
          have hNe : a ≠ a' := by
            intro hEq
            rw [hEq, hCell] at hFreed
            cases hFreed
          rw [wp_bind, wp_load hCell]
          by_cases hInside : b.Inside i
          · rw [if_pos hInside, wp_store hCell,
              Memory.setCell_of_ne hNe]
            exact hFreed
          · rw [if_neg hInside]
            trivial

/- Only a block placed at its address brings one back. -/
theorem wp_realloc_frame
    (hFreed : s.cell a = none)
    (hAnswer : answer = some a → p = some a) :
    wp (realloc answer p size)
      (fun _ s' => s'.cell a = none) (fun _ _ => True) s := by
  unfold realloc
  rw [wp_bind, wp_requested]
  cases p with
  | none =>
      cases answer with
      | none => exact hFreed
      | some a' =>
          have hNe : a ≠ a' := by
            intro hEq
            exact nomatch hAnswer (congrArg some hEq.symm)
          simp only [wp_bind, wp_pure]
          exact wp_place_frame hFreed hNe
  | some old =>
      cases hOld : s.cell old with
      | none =>
          simp only [load, wp_bind, wp_get,
            Memory.setProcess_cell, hOld, wp_throw]
      | some b =>
          have hLive :
              (s.setProcess
                (s.process.requested
                  (.truncate size))).cell old = some b :=
            hOld
          have hNe : a ≠ old := by
            intro hEq
            rw [hEq, hOld] at hFreed
            cases hFreed
          have hStill :
              ((s.setProcess
                (s.process.requested
                  (.truncate size))).setCell old none).cell
                a = none := by
            rw [Memory.setCell_of_ne hNe]
            exact hFreed
          rw [wp_bind, wp_load hLive]
          by_cases hSize : size = 0
          · rw [if_pos hSize, wp_bind, wp_free hLive]
            exact hStill
          · rw [if_neg hSize]
            cases answer with
            | none => exact hFreed
            | some a' =>
                have hOther : a ≠ a' := by
                  intro hEq
                  have hBuffer :=
                    hAnswer (congrArg some hEq.symm)
                  exact hNe (Option.some.inj hBuffer).symm
                simp only [wp_bind, wp_free hLive, wp_pure]
                exact wp_place_frame hStill hOther

end BlockCall

end KDoth
