import KDoth.Collections.KArraySequence
import KDoth.Objects.AutoreleasePop

/-
  Additions to the pool while it is popped. An addition that
  leaves the block where it is keeps the slots that the loop
  has still to read. Any other one is a fault, or leaves the
  loop with a slot to read from a block that was freed.

  Key definitions include:
    * `AutoreleasePop.Walked`
    * `AutoreleasePop.Sound`
    * `AutoreleasePop.Stale`

  Key theorems include:
    * `AutoreleasePop.walked_addObject`
    * `AutoreleasePop.ruined_of_harmful`
    * `AutoreleasePop.ruined_of_staleAt`
-/

------------------------------------------------------------
-- Additions To An Array
------------------------------------------------------------

namespace KDoth

namespace KArrayHead

open Command MemoryCall BlockCall

variable {s : Memory (Block KObjectRef)}
variable {array : KArrayHead} {b : Block KObjectRef}
variable {o : KObjectRef} {a : Nat} {answer : Option Nat}
variable {Q : KArrayHead × Bool → Memory (Block KObjectRef) → Prop}
variable {E : Fault → Memory (Block KObjectRef) → Prop}

/- An addition that asks for no bytes frees the block. -/
theorem wp_addObject_freed
    (hBuffer : array.items.buffer = some a)
    (hLive : s.cell a = some b)
    (hSize : KArray.grownSize array.length = 0)
    (hPost :
      ∀ s',
        s'.cell = Function.update s.cell a none →
          Q (array, false) s') :
    wp (addObject answer array (some o)) Q E s := by
  unfold addObject
  rw [wp_bind, hSize]
  apply KAllocationHead.wp_truncate_zero hBuffer hLive
  intro s' hCell
  exact hPost s' hCell

/- An addition that moves the block frees the old one. -/
theorem wp_addObject_moved
    {a' : Nat}
    (hBacked : KAllocationHead.Backed s.cell array.items b)
    (hBuffer : array.items.buffer = some a)
    (hSize : KArray.grownSize array.length ≠ 0)
    (hNe : a ≠ a') :
    wp (addObject (some a') array (some o))
      (fun r s' =>
        s'.cell a = none ∧ r.1.length = array.length + 1)
      (fun _ _ => True) s := by
  by_cases hFree : without s.cell array.items.buffer a' = none
  · apply wp_addObject_granted hBacked hSize hFree
    · rw [wp_retain_client]
      intro _ s' _ hCell
      refine ⟨?_, rfl⟩
      rw [hCell, Function.update_of_ne hNe, hBuffer]
      exact Function.update_self ..
    · intro _ _
      trivial
  · unfold addObject KAllocationHead.truncate
    simp only [wp_bind]
    apply
      wp_mono
        (wp_realloc_occupied hBacked.points (Or.inr hSize)
          hFree)
    · intro _ _ hFalse
      exact hFalse.elim
    · intro _ _ _
      trivial

/- At most one element is added. -/
theorem wp_addObject_length
    (array : KArrayHead) :
    wp (addObject answer array (some o))
      (fun r _ => r.1.length ≤ array.length + 1)
      (fun _ _ => True) s := by
  unfold addObject
  rw [wp_bind]
  apply wp_imp (wp_true _ s)
  rintro ⟨items, truncated⟩ s' _
  cases truncated with
  | false => exact Nat.le_succ _
  | true =>
      simp only [if_true, wp_bind]
      apply wp_imp (wp_true _ s')
      intro _ s'' _
      apply wp_imp (wp_true _ s'')
      intro _ _ _
      exact Nat.le_refl _

/- An addition to a freed block is a fault. -/
theorem wp_addObject_dangling
    (hBuffer : array.items.buffer = some a)
    (hFreed : s.cell a = none)
    (hPost : ∀ s', E .dangling s') :
    wp (addObject answer array (some o)) Q E s := by
  unfold addObject KAllocationHead.truncate realloc load
  simp only [wp_bind, hBuffer, wp_requested, wp_get,
    Memory.setProcess_cell, hFreed, wp_throw]
  exact hPost _

/-
  An addition whose block gets another address brings no
  freed block back.
-/
theorem wp_addObject_frame
    (hFreed : s.cell a = none)
    (hAnswer : answer = some a → array.items.buffer = some a) :
    wp (addObject answer array (some o))
      (fun r s' =>
        s'.cell a = none ∧ array.length ≤ r.1.length)
      (fun _ _ => True) s := by
  unfold addObject KAllocationHead.truncate
  simp only [wp_bind]
  apply wp_imp (wp_realloc_frame hFreed hAnswer)
  intro buffer s' hStill
  cases buffer with
  | none => exact ⟨hStill, Nat.le_refl _⟩
  | some a' =>
      simp only [if_true, wp_bind, wp_pure, wp_lift,
        wp_retain_client]
      have hRetained :
          (s'.setProcess
            (s'.process.addReferences o 1)).cell a = none :=
        hStill
      apply wp_imp (wp_storeWord_frame hRetained)
      intro _ s'' hEnd
      exact ⟨hEnd, Nat.le_succ _⟩

end KArrayHead

end KDoth

------------------------------------------------------------
-- The Slots Already Read
------------------------------------------------------------

namespace KDoth

namespace AutoreleasePop

open Command

variable {objects : List KObjectRef}
variable {s s' : AutoreleasePop} {next : Nat}

/- The loop reads the slots from the block of the pool. -/
def Kept (s : AutoreleasePop) (content : List KObjectRef) : Prop :=
  ∃ array,
    s.tPool = some array ∧
      s.items = array.items.buffer ∧
      KArrayHead.Stores s.memory.cell array content

/- The block of the pool was freed. -/
def BlockFreed (s : AutoreleasePop) : Prop :=
  ∃ array a,
    s.tPool = some array ∧
      array.items.buffer = some a ∧
      s.memory.cell a = none

/-
  The slots before `next` were released. Those behind can be
  read, where there are any.
-/
structure Walked
    (objects : List KObjectRef)
    (s : AutoreleasePop)
    (next : Nat) : Prop where
  released : s.released = (objects ++ s.added).take next
  le : next ≤ (objects ++ s.added).length
  length : s.length = (objects ++ s.added).length
  used : ∀ a, s.items = some a → a < s.nextAddress
  block :
    s.Kept (objects ++ s.added) ∨
      next = (objects ++ s.added).length ∧
        (objects ++ s.added = [] ∨ s.BlockFreed)

/-
  There is a slot to read, but the block that the loop
  fetched was freed.
-/
def StaleAt (s : AutoreleasePop) (next : Nat) : Prop :=
  ∃ array a,
    s.tPool = some array ∧
      s.items = some a ∧
      s.memory.cell a = none ∧
      a < s.nextAddress ∧
      next < array.length

/- What holds where every addition was harmless. -/
def Sound
    (objects : List KObjectRef)
    (s : AutoreleasePop) : Prop :=
  match s.phase with
  | .idle => Starts objects s
  | .walking i => Walked objects s i
  | .releasing i _ _ => Walked objects s (i + 1)
  | .returned _ => PopsOnce objects s
  | .faulted _ => False

/- What holds after an addition that was not. -/
def Stale (s : AutoreleasePop) : Prop :=
  match s.phase with
  | .walking i => s.StaleAt i
  | .releasing i _ _ => s.StaleAt (i + 1)
  | .faulted _ => True
  | _ => False

theorem length_of_some
    {array : KArrayHead}
    (hPool : s.tPool = some array) :
    s.length = array.length := by
  rw [length, hPool]
  rfl

/- A pool without a slot before `next` has elements. -/
theorem Walked.nonempty
    (hWalked : Walked objects s next)
    (hNext : 0 < next) :
    objects ++ s.added ≠ [] := by
  intro hNil
  have hLe := hWalked.le
  rw [hNil, List.length_nil] at hLe
  omega

/- What a call of `KArrayAddObject` makes of the pop. -/
theorem addObject_of_wp
    {array : KArrayHead}
    {o : KObjectRef}
    {answer : ReallocAnswer}
    {Q : KArrayHead × Bool → Memory (Block KObjectRef) → Prop}
    {E : Fault → Memory (Block KObjectRef) → Prop}
    (hPool : s.tPool = some array)
    (hCall :
      wp (array.addObject (s.address answer) (some o)) Q E
        s.memory) :
    (∃ r m,
      Q r m ∧
        s.addObject (some o) answer =
          { s with
            memory := m
            tPool := some r.1
            nextAddress := s.nextAddress + 1
            added :=
              if r.2 then s.added ++ [o] else s.added }) ∨
      ∃ fault m,
        E fault m ∧
          s.addObject (some o) answer =
            { s with phase := .faulted fault, memory := m } := by
  unfold wp at hCall
  cases hRun :
      array.addObject (s.address answer) (some o) s.memory with
  | ok r m =>
      rw [hRun] at hCall
      refine Or.inl ⟨r, m, hCall, ?_⟩
      have hPoolRun :
          autoreleasePoolAddObject none (s.address answer)
              (some array) (some o) s.memory =
            .ok (some r.1, r.2) m :=
        bind_of_ok hRun
      rw [addObject, hPool, hPoolRun]
      rfl
  | error fault m =>
      rw [hRun] at hCall
      refine Or.inr ⟨fault, m, hCall, ?_⟩
      have hPoolRun :
          autoreleasePoolAddObject none (s.address answer)
              (some array) (some o) s.memory =
            .error fault m :=
        bind_of_error hRun
      rw [addObject, hPool, hPoolRun]

end AutoreleasePop

end KDoth

------------------------------------------------------------
-- Additions During The Pop
------------------------------------------------------------

namespace KDoth

namespace AutoreleasePop

open Command BlockCall

variable {objects : List KObjectRef}
variable {s : AutoreleasePop} {next : Nat}
variable {o : KObjectRef} {answer : ReallocAnswer}
variable {array : KArrayHead} {a : Nat} {b : Block KObjectRef}

/- The pool and the loop are on a block with the objects. -/
structure OnBlock
    (objects : List KObjectRef)
    (s : AutoreleasePop)
    (array : KArrayHead)
    (a : Nat)
    (b : Block KObjectRef) : Prop where
  pool : s.tPool = some array
  buffer : array.items.buffer = some a
  items : s.items = some a
  live : s.memory.cell a = some b
  backed : KAllocationHead.Backed s.memory.cell array.items b
  length : array.length = (objects ++ s.added).length
  holds : b.Holds (objects ++ s.added)

/- Where the block stays, its place is free for it. -/
theorem OnBlock.inPlace
    (hBlock : OnBlock objects s array a b) :
    s.address .inPlace = some a ∧
      without s.memory.cell array.items.buffer a = none := by
  rw [address, hBlock.pool, hBlock.buffer]
  exact ⟨hBlock.buffer, Function.update_self ..⟩

theorem OnBlock.blockLive
    (hBlock : OnBlock objects s array a b) :
    s.BlockLive := by
  rw [BlockLive, hBlock.pool, Option.bind_some, hBlock.buffer]
  simp only [hBlock.live, Option.isSome_some]

/- After the first slot, the block is there or was freed. -/
theorem Walked.block_of_pos
    (hWalked : Walked objects s next)
    (hNext : 0 < next) :
    (∃ array a b, OnBlock objects s array a b) ∨
      next = (objects ++ s.added).length ∧ s.BlockFreed := by
  have hNonempty := hWalked.nonempty hNext
  rcases hWalked.block with
    ⟨array, hPool, hItems, hStores⟩ | ⟨hEnd, hNil | hFreed⟩
  · rcases hStores.block hNonempty with
      ⟨a, b, hBuffer, hLive, hSize, hHolds⟩
    refine
      Or.inl
        ⟨array, a, b, hPool, hBuffer, hItems.trans hBuffer,
          hLive, ⟨?_, hSize⟩, hStores.length, hHolds⟩
    rw [hBuffer]
    exact hLive
  · exact absurd hNil hNonempty
  · exact Or.inr ⟨hEnd, hFreed⟩

/- A block that was freed is not live. -/
theorem BlockFreed.not_live
    (hFreed : s.BlockFreed) :
    ¬ s.BlockLive := by
  rcases hFreed with ⟨array, a, hPool, hBuffer, hNone⟩
  intro hLive
  rw [BlockLive, hPool, Option.bind_some, hBuffer] at hLive
  simp only [hNone, Option.isSome_none] at hLive
  cases hLive

/- The object is behind the slots that were released. -/
theorem Walked.appended
    {m : Memory (Block KObjectRef)}
    (hWalked : Walked objects s next)
    (hBlock : OnBlock objects s array a b)
    (hShort : array.length < 2 ^ 28)
    (hCell :
      m.cell a =
        some
          ((b.resized (KArray.grownSize array.length)).write
            array.length o)) :
    Walked objects
      { s with
        memory := m
        tPool :=
          some
            { array with
              length := array.length + 1
              items :=
                { array.items with
                  buffer := some a
                  size := KArray.grownSize array.length } }
        nextAddress := s.nextAddress + 1
        added := s.added ++ [o] }
      next where
  released := by
    show s.released = (objects ++ (s.added ++ [o])).take next
    rw [← List.append_assoc,
      List.take_append_of_le_length hWalked.le]
    exact hWalked.released
  le := by
    show next ≤ (objects ++ (s.added ++ [o])).length
    rw [← List.append_assoc, List.length_append]
    exact Nat.le_add_right_of_le hWalked.le
  length := by
    show array.length + 1 =
      (objects ++ (s.added ++ [o])).length
    rw [← List.append_assoc, List.length_append, hBlock.length,
      List.length_singleton]
  used a' hSame := Nat.lt_succ_of_lt (hWalked.used a' hSame)
  block := by
    refine Or.inl ⟨_, rfl, hBlock.items, ?_⟩
    show KArrayHead.Stores m.cell _
      (objects ++ (s.added ++ [o]))
    rw [← List.append_assoc]
    exact
      KArrayHead.Stores.append hBlock.length hBlock.holds
        ((KArray.grownSize_iff array.length).mpr hShort) hCell

/- A refused addition leaves the pop as it was. -/
theorem walked_refused
    (hWalked : Walked objects s next)
    (hBlock : OnBlock objects s array a b)
    (hSize : KArray.grownSize array.length ≠ 0) :
    (s.addObject (some o) .refused).phase = s.phase ∧
      Walked objects (s.addObject (some o) .refused) next := by
  have hCall :
      wp
        (array.addObject (s.address .refused) (some o))
        (fun r m =>
          r = (array, false) ∧ m.cell = s.memory.cell)
        (fun _ _ => False) s.memory :=
    KArrayHead.wp_addObject_refused hBlock.backed hSize
      (fun _ _ hCell => ⟨rfl, hCell⟩)
  rcases addObject_of_wp hBlock.pool hCall with
    ⟨_, m, ⟨rfl, hCell⟩, hAfter⟩ | ⟨_, _, hNone, _⟩
  · rw [hAfter]
    refine
      ⟨rfl, hWalked.released, hWalked.le, hBlock.length, ?_,
        Or.inl ⟨array, rfl, ?_, hBlock.length, b, ?_, ?_⟩⟩
    · intro a' hSame
      exact Nat.lt_succ_of_lt (hWalked.used a' hSame)
    · exact hBlock.items.trans hBlock.buffer.symm
    · rw [hCell]
      exact hBlock.backed
    · exact hBlock.holds
  · exact hNone.elim

/- The object is written to the block where it is. -/
theorem walked_inPlace
    (hWalked : Walked objects s next)
    (hBlock : OnBlock objects s array a b)
    (hSize : KArray.grownSize array.length ≠ 0)
    (hShort : array.length < 2 ^ 28) :
    (s.addObject (some o) .inPlace).phase = s.phase ∧
      Walked objects (s.addObject (some o) .inPlace) next := by
  rcases hBlock.inPlace with ⟨hAddress, hFree⟩
  have hCall :
      wp (array.addObject (some a) (some o))
        (fun r m =>
          r =
              ({ array with
                  length := array.length + 1
                  items :=
                    { array.items with
                      buffer := some a
                      size := KArray.grownSize array.length } },
                true) ∧
            m.cell a =
              some
                ((b.resized
                  (KArray.grownSize array.length)).write
                  array.length o))
        (fun _ _ => False) s.memory := by
    apply
      KArrayHead.wp_addObject_granted hBlock.backed hSize hFree
    · rw [wp_retain_client]
      intro _ m _ hCell
      rw [hCell, Function.update_self]
      exact ⟨rfl, rfl⟩
    · intro hLong
      exact absurd hShort hLong
  rw [← hAddress] at hCall
  rcases addObject_of_wp hBlock.pool hCall with
    ⟨_, m, ⟨rfl, hCell⟩, hAfter⟩ | ⟨_, _, hNone, _⟩
  · rw [hAfter, hAddress]
    exact ⟨rfl, hWalked.appended hBlock hShort hCell⟩
  · exact hNone.elim

/- A request for no bytes frees the block. -/
theorem freed_addObject
    (o : KObjectRef)
    (answer : ReallocAnswer)
    (hBlock : OnBlock objects s array a b)
    (hSize : KArray.grownSize array.length = 0) :
    ∃ m,
      m.cell a = none ∧
        s.addObject (some o) answer =
          { s with
            memory := m
            nextAddress := s.nextAddress + 1 } := by
  have hCall :
      wp
        (array.addObject (s.address answer) (some o))
        (fun r m => r = (array, false) ∧ m.cell a = none)
        (fun _ _ => False) s.memory := by
    apply
      KArrayHead.wp_addObject_freed hBlock.buffer hBlock.live
        hSize
    intro m hCell
    rw [hCell, Function.update_self]
    exact ⟨rfl, rfl⟩
  rcases addObject_of_wp hBlock.pool hCall with
    ⟨_, m, ⟨rfl, hCell⟩, hAfter⟩ | ⟨_, _, hNone, _⟩
  · refine ⟨m, hCell, ?_⟩
    rw [hAfter, ← hBlock.pool]
    rfl
  · exact hNone.elim

/- A harmless addition leaves the slots to be read. -/
theorem walked_addObject
    (hWalked : Walked objects s next)
    (hNext : 0 < next)
    (hPhase : s.phase.next = next)
    (hHarmless : s.Harmless answer) :
    (s.addObject (some o) answer).phase = s.phase ∧
      Walked objects (s.addObject (some o) answer) next := by
  rcases hHarmless with ⟨hLive, hHarmless⟩
  rcases hWalked.block_of_pos hNext with
    ⟨array, a, b, hBlock⟩ | ⟨_, hFreed⟩
  · rw [length_of_some hBlock.pool, hPhase] at hHarmless
    by_cases hSize : KArray.grownSize array.length = 0
    · -- Every slot was read when the block is freed.
      rw [if_pos hSize] at hHarmless
      rcases freed_addObject o answer hBlock hSize with
        ⟨m, hCell, hAfter⟩
      rw [hAfter]
      refine
        ⟨rfl, hWalked.released, hWalked.le, hWalked.length, ?_,
          Or.inr ⟨hHarmless.trans hBlock.length, Or.inr ?_⟩⟩
      · intro a' hSame
        exact Nat.lt_succ_of_lt (hWalked.used a' hSame)
      · exact ⟨array, a, hBlock.pool, hBlock.buffer, hCell⟩
    · rw [if_neg hSize] at hHarmless
      rcases hHarmless with rfl | ⟨rfl, hShort⟩
      · exact walked_refused hWalked hBlock hSize
      · exact walked_inPlace hWalked hBlock hSize hShort
  · exact absurd hLive hFreed.not_live

/- What an addition that is not harmless leads to. -/
def Ruined
    (s : AutoreleasePop)
    (next : Nat)
    (s' : AutoreleasePop) : Prop :=
  (∃ fault, s'.phase = .faulted fault) ∨
    (s'.phase = s.phase ∧ s'.StaleAt next)

/- The word behind the others is outside a wrapped size. -/
theorem ruined_inPlace
    (hBlock : OnBlock objects s array a b)
    (hSize : KArray.grownSize array.length ≠ 0)
    (hLong : ¬ array.length < 2 ^ 28) :
    Ruined s next (s.addObject (some o) .inPlace) := by
  rcases hBlock.inPlace with ⟨hAddress, hFree⟩
  have hCall :
      wp (array.addObject (some a) (some o))
        (fun _ _ => False) (fun _ _ => True) s.memory := by
    apply
      KArrayHead.wp_addObject_granted hBlock.backed hSize hFree
    · rw [wp_retain_client]
      intro hShort
      exact absurd hShort hLong
    · intro _ _
      trivial
  rw [← hAddress] at hCall
  rcases addObject_of_wp hBlock.pool hCall with
    ⟨_, _, hNone, _⟩ | ⟨fault, _, _, hAfter⟩
  · exact hNone.elim
  · rw [hAfter]
    exact Or.inl ⟨fault, rfl⟩

/- The object behind the others is in another block. -/
theorem ruined_moved
    (hWalked : Walked objects s next)
    (hBlock : OnBlock objects s array a b)
    (hSize : KArray.grownSize array.length ≠ 0) :
    Ruined s next (s.addObject (some o) .moved) := by
  have hUsed := hWalked.used a hBlock.items
  have hLe := hWalked.le
  rw [← hBlock.length] at hLe
  have hCall :
      wp (array.addObject (s.address .moved) (some o))
        _ _ s.memory :=
    KArrayHead.wp_addObject_moved hBlock.backed
      hBlock.buffer hSize (Nat.ne_of_lt hUsed)
  rcases addObject_of_wp hBlock.pool hCall with
    ⟨r, m, ⟨hCell, hLength⟩, hAfter⟩ | ⟨fault, _, _, hAfter⟩
  · rw [hAfter]
    refine
      Or.inr
        ⟨rfl, r.1, a, rfl, hBlock.items, hCell,
          Nat.lt_succ_of_lt hUsed, ?_⟩
    rw [hLength]
    exact Nat.lt_succ_of_le hLe
  · rw [hAfter]
    exact Or.inl ⟨fault, rfl⟩

/- No more can be added to a block that was freed. -/
theorem ruined_freed
    (o : KObjectRef)
    (answer : ReallocAnswer)
    (hFreed : s.BlockFreed) :
    Ruined s next (s.addObject (some o) answer) := by
  rcases hFreed with ⟨array, a, hPool, hBuffer, hNone⟩
  have hCall :
      wp (array.addObject (s.address answer) (some o))
        (fun _ _ => False) (fun _ _ => True) s.memory :=
    KArrayHead.wp_addObject_dangling hBuffer hNone
      (fun _ => trivial)
  rcases addObject_of_wp hPool hCall with
    ⟨_, _, hFalse, _⟩ | ⟨fault, _, _, hAfter⟩
  · exact hFalse.elim
  · rw [hAfter]
    exact Or.inl ⟨fault, rfl⟩

/- Any other one is a fault, or leaves a slot to be misread. -/
theorem ruined_of_harmful
    (hWalked : Walked objects s next)
    (hNext : 0 < next)
    (hPhase : s.phase.next = next)
    (hHarmful : ¬ s.Harmless answer) :
    Ruined s next (s.addObject (some o) answer) := by
  rcases hWalked.block_of_pos hNext with
    ⟨array, a, b, hBlock⟩ | ⟨_, hFreed⟩
  · have hLive := hBlock.blockLive
    rw [Harmless, length_of_some hBlock.pool, hPhase]
      at hHarmful
    by_cases hSize : KArray.grownSize array.length = 0
    · rw [if_pos hSize] at hHarmful
      have hLe := hWalked.le
      rw [← hBlock.length] at hLe
      have hLeft : next ≠ array.length :=
        fun hEnd => hHarmful ⟨hLive, hEnd⟩
      rcases freed_addObject o answer hBlock hSize with
        ⟨m, hCell, hAfter⟩
      rw [hAfter]
      exact
        Or.inr
          ⟨rfl, array, a, hBlock.pool, hBlock.items, hCell,
            Nat.lt_succ_of_lt (hWalked.used a hBlock.items),
            Nat.lt_of_le_of_ne hLe hLeft⟩
    · rw [if_neg hSize] at hHarmful
      cases answer with
      | refused => exact absurd ⟨hLive, Or.inl rfl⟩ hHarmful
      | inPlace =>
          apply ruined_inPlace hBlock hSize
          intro hShort
          exact hHarmful ⟨hLive, Or.inr ⟨rfl, hShort⟩⟩
      | moved => exact ruined_moved hWalked hBlock hSize
  · exact ruined_freed o answer hFreed

/- No addition brings the block back. -/
theorem ruined_of_staleAt
    (o : KObjectRef)
    (answer : ReallocAnswer)
    (hStale : s.StaleAt next) :
    Ruined s next (s.addObject (some o) answer) := by
  rcases hStale with
    ⟨array, a, hPool, hItems, hNone, hUsed, hLeft⟩
  have hAnswer :
      s.address answer = some a →
        array.items.buffer = some a := by
    intro hAddress
    cases answer with
    | refused => cases hAddress
    | inPlace =>
        rw [address, hPool] at hAddress
        exact hAddress
    | moved =>
        rw [address, Option.some.injEq] at hAddress
        omega
  rcases
    addObject_of_wp hPool
      (KArrayHead.wp_addObject_frame hNone hAnswer) with
    ⟨r, m, ⟨hCell, hLe⟩, hAfter⟩ | ⟨fault, _, _, hAfter⟩
  · rw [hAfter]
    exact
      Or.inr
        ⟨rfl, r.1, a, rfl, hItems, hCell,
          Nat.lt_succ_of_lt hUsed,
          Nat.lt_of_lt_of_le hLeft hLe⟩
  · rw [hAfter]
    exact Or.inl ⟨fault, rfl⟩

end AutoreleasePop

end KDoth
