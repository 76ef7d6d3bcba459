import KDoth.Collections.KAllocation
import KDoth.Foundations.Lockstep
import KDoth.Runtime.Blocks

/-
  Allocations of `kallocation.c` over the blocks they own,
  and their runs: requests for a size, each granted or
  refused, and the release at the end.

  Key definitions include:
    * `KAllocationHead`
    * `KAllocationHead.truncate`
    * `KAllocationHead.deInit`
    * `KAllocationHead.machine`
    * `KAllocationHead.Lawful`

  Key theorems include:
    * `KAllocationHead.wp_truncate`
    * `KAllocationHead.wp_truncate_zero`
    * `KAllocationHead.lawful_iff`
    * `KAllocationHead.truncate_dangles`
-/

------------------------------------------------------------
-- Allocations
------------------------------------------------------------

namespace KDoth

/- `struct KAllocation`. The address is of its own object. -/
structure KAllocationHead where
  address : Nat
  size : Nat
  buffer : Option Nat
deriving DecidableEq

namespace KAllocationHead

open BlockCall

variable {α : Type}

/- `KAllocationNew` zeroes the record. -/
def new (address : Nat) : KAllocationHead where
  address := address
  size := 0
  buffer := none

/- `KAllocationTruncate`, where `realloc` is answered so. -/
def truncate
    (answer : Option Nat)
    (allocation : KAllocationHead)
    (size : Nat) :
    BlockCall α (KAllocationHead × Bool) := do
  match ← realloc (α := α) answer allocation.buffer size with
  | none => pure (allocation, false)
  | some buffer =>
      pure
        ({ allocation with buffer := some buffer, size := size },
          true)

/- `KAllocationGetSize` -/
def getSize (allocation : KAllocationHead) : Nat :=
  allocation.size

/- `KAllocationDeInit` -/
def deInit (allocation : KAllocationHead) : BlockCall α Unit :=
  freeBlock allocation.buffer

end KAllocationHead

end KDoth

------------------------------------------------------------
-- Truncation
------------------------------------------------------------

namespace KDoth

namespace KAllocationHead

open Command BlockCall

variable {α : Type} {s : Memory (Block α)}
variable {allocation : KAllocationHead} {b : Block α}
variable {E : Fault → Memory (Block α) → Prop}
variable {Q : KAllocationHead × Bool → Memory (Block α) → Prop}
variable {answer : Option Nat} {size : Nat}

/- The allocation owns a block of its size, or nothing. -/
structure Backed
    (cell : Nat → Option (Block α))
    (allocation : KAllocationHead)
    (b : Block α) : Prop where
  points : PointsTo cell allocation.buffer b
  size : b.size = allocation.size

/-
  A request for bytes is refused and changes nothing, or it
  is granted and moves the contents.
-/
theorem wp_truncate
    (hBacked : Backed s.cell allocation b)
    (hSize : allocation.buffer = none ∨ size ≠ 0)
    (hAnswer :
      ∀ a, answer = some a →
        without s.cell allocation.buffer a = none)
    (hRefused :
      ∀ s', answer = none →
        s'.process = s.process.requested (.truncate size) →
          s'.cell = s.cell → Q (allocation, false) s')
    (hGranted :
      ∀ a s', answer = some a →
        s'.process = s.process.requested (.truncate size) →
          s'.cell =
            Function.update
              (without s.cell allocation.buffer) a
              (some (b.resized size)) →
            Q
              ({ allocation with
                  buffer := some a
                  size := size },
                true) s') :
    wp (truncate answer allocation size) Q E s := by
  unfold truncate
  rw [wp_bind]
  apply wp_realloc hBacked.points hSize hAnswer
  · intro hNone
    exact hRefused _ hNone rfl rfl
  · intro a s' hSome hProcess hCell
    exact hGranted a s' hSome hProcess hCell

/-
  A request for no bytes frees the block of an allocation
  that has one, and reports a failure.
-/
theorem wp_truncate_zero
    {a : Nat}
    (hBuffer : allocation.buffer = some a)
    (hLive : s.cell a = some b)
    (hPost :
      ∀ s',
        s'.cell = Function.update s.cell a none →
          Q (allocation, false) s') :
    wp (truncate answer allocation 0) Q E s := by
  unfold truncate
  rw [wp_bind, hBuffer]
  apply wp_realloc_zero hLive
  exact hPost _ rfl

/- The release gives back the block. -/
theorem wp_deInit
    {Q : Unit → Memory (Block α) → Prop}
    (hBacked : Backed s.cell allocation b)
    (hPost :
      ∀ s',
        s'.cell = without s.cell allocation.buffer → Q () s') :
    wp (deInit allocation) Q E s := by
  apply wp_freeBlock hBacked.points
  intro s' _ hCell
  exact hPost s' hCell

end KAllocationHead

end KDoth

------------------------------------------------------------
-- Runs
------------------------------------------------------------

namespace KDoth

/- A request for a size, and what `realloc` answers. -/
structure TruncateCall where
  size : Nat
  answer : Option Nat
deriving DecidableEq

namespace KAllocationHead

variable {α : Type}

def call
    (allocation : KAllocationHead)
    (c : TruncateCall) :
    BlockCall α (KAllocationHead × Bool) :=
  truncate c.answer allocation c.size

/- An allocation in memory as a machine. -/
def machine :
    Machine (KAllocationHead × Memory (Block α)) TruncateCall
      (Except Fault Bool) :=
  MemoryCall.machine call

/- The buffer is NULL or to a live block of the size. -/
def BufferLive
    (r : KAllocationHead × Memory (Block α)) : Prop :=
  ∀ a, r.1.buffer = some a →
    ∃ b, r.2.cell a = some b ∧ b.size = r.1.getSize

/-
  What the allocation promises over a run, in a memory whose
  other blocks are `others`. In every state the buffer is
  NULL or live with the size given. No call faults, and a
  call that fails changes neither the record nor any block.
  The release after the run frees what the allocation holds
  and only that, so every block is freed once.
-/
def Lawful
    (others : Nat → Option (Block α)) :
    KAllocationHead × Memory (Block α) →
      List TruncateCall → Prop
| r, [] =>
    BufferLive r ∧
      Command.Returns (deInit r.1) r.2
        (fun _ s' => s'.cell = others)
| r, c :: calls =>
    BufferLive r ∧
      match machine.step r c with
      | none => True
      | some (v, r') =>
          (∃ done, v = .ok done) ∧
            (v = .ok false →
              r'.1 = r.1 ∧ r'.2.cell = r.2.cell) ∧
            Lawful others r' calls

/- The call asks an allocation without a block, or for some. -/
def Keeps
    (r : KAllocationHead × Memory (Block α))
    (c : TruncateCall) : Prop :=
  r.1.buffer = none ∨ c.size ≠ 0

end KAllocationHead

end KDoth

------------------------------------------------------------
-- The Law
------------------------------------------------------------

namespace KDoth

namespace KAllocationHead

open Command BlockCall

variable {α : Type} {others : Nat → Option (Block α)}
variable {r r' : KAllocationHead × Memory (Block α)}
variable {c : TruncateCall} {v : Except Fault Bool}

/- The allocation is backed, and the rest is the others'. -/
structure Sound
    (others : Nat → Option (Block α))
    (r : KAllocationHead × Memory (Block α)) : Prop where
  backed : ∃ b, Backed r.2.cell r.1 b
  rest : without r.2.cell r.1.buffer = others

theorem Sound.bufferLive
    (hSound : Sound others r) :
    BufferLive r := by
  rcases hSound.backed with ⟨b, hPoints, hSize⟩
  intro a hBuffer
  unfold PointsTo at hPoints
  rw [hBuffer] at hPoints
  exact ⟨b, hPoints, hSize⟩

theorem Sound.deInit
    (hSound : Sound others r) :
    Returns (deInit r.1) r.2 (fun _ s' => s'.cell = others) := by
  rcases hSound.backed with ⟨b, hBacked⟩
  rw [returns_iff_wp]
  apply wp_deInit hBacked
  intro s' hCell
  exact hCell.trans hSound.rest

/- An answer that is no free address is no step. -/
theorem Sound.free_of_step
    (hSound : Sound others r)
    (hKeeps : Keeps r c)
    (hStep : machine.step r c ≠ none) :
    ∀ a, c.answer = some a →
      without r.2.cell r.1.buffer a = none := by
  rcases hSound.backed with ⟨b, hPoints, _⟩
  intro a hAnswer
  cases hCell : without r.2.cell r.1.buffer a with
  | none => rfl
  | some other =>
      exfalso
      apply hStep
      apply MemoryCall.step_of_occupied
      unfold call truncate
      rw [hAnswer, wp_bind]
      apply wp_mono
        (wp_realloc_occupied (a := a) hPoints hKeeps _)
      · intro _ _ hFalse
        exact hFalse.elim
      · intro e s hOccupied
        exact hOccupied
      · rw [hCell]
        nofun

/- A block put where none was may be taken out again. -/
theorem without_update
    {a : Nat}
    {b : Option (Block α)}
    (hFree : others a = none) :
    without (Function.update others a b) (some a) = others := by
  show Function.update (Function.update others a b) a none = _
  rw [Function.update_idem, ← hFree, Function.update_eq_self]

/- What a call that keeps the block does. -/
theorem Sound.step
    (hSound : Sound others r)
    (hKeeps : Keeps r c)
    (hStep : machine.step r c = some (v, r')) :
    (∃ done, v = .ok done) ∧
      (v = .ok false →
        r'.1 = r.1 ∧ r'.2.cell = r.2.cell) ∧
      Sound others r' := by
  have hFree :=
    hSound.free_of_step hKeeps (by rw [hStep]; nofun)
  rcases hSound.backed with ⟨b, hBacked⟩
  have hReturns :
      wp (call r.1 c)
        (fun q s =>
          (q.2 = false → q.1 = r.1 ∧ s.cell = r.2.cell) ∧
            Sound others (q.1, s))
        (fun _ _ => False) r.2 := by
    apply wp_truncate hBacked hKeeps hFree
    · intro s hNone hProcess hCell
      refine ⟨fun _ => ⟨rfl, hCell⟩, ⟨b, ?_⟩, ?_⟩
      · rw [hCell]
        exact hBacked
      · show without s.cell r.1.buffer = others
        rw [hCell]
        exact hSound.rest
    · intro a s hSome hProcess hCell
      have hOthers : others a = none := by
        rw [← hSound.rest]
        exact hFree a hSome
      refine ⟨nofun, ⟨b.resized c.size, ?_, rfl⟩, ?_⟩
      · show s.cell a = _
        rw [hCell, Function.update_self]
      · show without s.cell (some a) = others
        rw [hCell, hSound.rest]
        exact without_update hOthers
  rcases MemoryCall.step_of_wp hReturns with
    ⟨q, s, hEnd, hSame, hNext⟩
  unfold machine at hStep
  rw [hEnd] at hStep
  cases hStep
  refine ⟨⟨q.2, rfl⟩, ?_, hNext⟩
  intro hFalse
  exact hSame (Except.ok.inj hFalse)

/- A call that does not keep the block frees it. -/
theorem Sound.step_zero
    (hSound : Sound others r)
    (hNot : ¬ Keeps r c) :
    ∃ a r',
      machine.step r c = some (.ok false, r') ∧
        r.2.cell a ≠ none ∧ r'.2.cell a = none := by
  rcases hSound.backed with ⟨b, hPoints, _⟩
  unfold Keeps at hNot
  rw [not_or, not_not] at hNot
  rcases hNot with ⟨hSome, hZero⟩
  cases hBuffer : r.1.buffer with
  | none => exact absurd hBuffer hSome
  | some a =>
      have hLive : r.2.cell a = some b := by
        unfold PointsTo at hPoints
        rw [hBuffer] at hPoints
        exact hPoints
      have hReturns :
          wp (call r.1 c)
            (fun q s => q = (r.1, false) ∧ s.cell a = none)
            (fun _ _ => False) r.2 := by
        unfold call
        rw [hZero]
        apply wp_truncate_zero hBuffer hLive
        intro s hCell
        refine ⟨rfl, ?_⟩
        rw [hCell, Function.update_self]
      rcases MemoryCall.step_of_wp hReturns with
        ⟨q, s, hEnd, hValue, hFreed⟩
      subst hValue
      refine ⟨a, _, hEnd, ?_, hFreed⟩
      rw [hLive]
      nofun

theorem sound_new
    (address : Nat)
    (s : Memory (Block α)) :
    Sound s.cell (new address, s) :=
  ⟨⟨Block.fresh 0, rfl, rfl⟩, rfl⟩

theorem lawful_iff_of_sound
    (hSound : Sound others r)
    (calls : List TruncateCall) :
    Lawful others r calls ↔ machine.Meets Keeps r calls := by
  induction calls generalizing r with
  | nil =>
      constructor
      · intro _
        trivial
      · intro _
        exact ⟨hSound.bufferLive, hSound.deInit⟩
  | cons c calls ih =>
      unfold Lawful Machine.Meets
      constructor
      · intro hLawful
        have hKeeps : Keeps r c := by
          by_contra hNot
          rcases hSound.step_zero hNot with
            ⟨a, r', hStep, hLive, hFreed⟩
          have hFails := hLawful.2
          rw [hStep] at hFails
          have hSame := (hFails.2.1 rfl).2
          rw [hSame] at hFreed
          exact hLive hFreed
        have hRest := hLawful.2
        cases hStep : machine.step r c with
        | none => trivial
        | some q =>
            rcases q with ⟨v, r'⟩
            rw [hStep] at hRest
            have hNext := (hSound.step hKeeps hStep).2.2
            exact ⟨hKeeps, (ih hNext).mp hRest.2.2⟩
      · intro hMeets
        refine ⟨hSound.bufferLive, ?_⟩
        cases hStep : machine.step r c with
        | none => trivial
        | some q =>
            rcases q with ⟨v, r'⟩
            rw [hStep] at hMeets
            rcases hMeets with ⟨hKeeps, hTail⟩
            rcases hSound.step hKeeps hStep with
              ⟨hDone, hSame, hNext⟩
            exact ⟨hDone, hSame, (ih hNext).mpr hTail⟩

/-
  A run keeps what the allocation promises exactly if no call
  asks for no bytes while there is a block.
-/
theorem lawful_iff
    (address : Nat)
    (s : Memory (Block α))
    (calls : List TruncateCall) :
    Lawful s.cell (new address, s) calls ↔
      machine.Meets Keeps (new address, s) calls :=
  lawful_iff_of_sound (sound_new address s) calls

/-
  After a request for eight bytes and one for none the buffer
  dangles, although the second reports a failure.
-/
theorem truncate_dangles :
    ¬ Lawful (α := Nat) (fun _ => none)
        (new 0,
          { process := Process.initial
            cell := fun _ => none })
        [{ size := 8, answer := some 100 },
          { size := 0, answer := none }] := by
  intro hLawful
  have hFails := hLawful.2.2.2.2.2
  have hSame := (hFails.1 rfl).2
  have hCell := congrFun hSame 100
  cases hCell

end KAllocationHead

end KDoth
