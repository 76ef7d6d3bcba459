import KDoth.Strings.StringViews

/-
  What a formatted string is in memory, for every answer of
  the call of `vsnprintf` that finds the size.

  Key definitions include:
    * `Formatting.Undersized`

  Key theorems include:
    * `KStringHead.wp_newWithFormatV`
-/

------------------------------------------------------------
-- Sizes
------------------------------------------------------------

namespace KDoth

namespace KString

/- Only the largest sum overflows. -/
theorem toInt_succ
    {n : Int32}
    (hFits : n.toInt ≠ 2 ^ 31 - 1) :
    (n + 1).toInt = n.toInt + 1 := by
  have hLower := n.le_toInt
  have hUpper := n.toInt_lt
  rw [Int32.toInt_add]
  apply Int.bmod_eq_of_le
  · simp
    omega
  · simp
    omega

/- The bytes of a text and its terminator. -/
theorem sizeOfInt_succ
    {n : Int32}
    (hText : 0 ≤ n.toInt)
    (hFits : n.toInt ≠ 2 ^ 31 - 1) :
    sizeOfInt (n + 1) = n.toInt.toNat + 1 := by
  have hUpper := n.toInt_lt
  unfold sizeOfInt
  rw [toInt_succ hFits]
  omega

theorem sizeOfInt_of_nonneg
    {n : Int32}
    (hText : 0 ≤ n.toInt) :
    sizeOfInt n = n.toInt.toNat := by
  have hUpper := n.toInt_lt
  unfold sizeOfInt
  omega

/- No block has a size that was negative. -/
theorem ptrdiffMax_lt_sizeOfInt
    {n : Int32}
    (hNegative : n.toInt < 0) :
    ptrdiffMax < sizeOfInt n := by
  have hLower := n.le_toInt
  unfold ptrdiffMax sizeOfInt
  omega

/- The sum for the block is negative. -/
theorem toInt_succ_neg
    {n : Int32}
    (hWrong : n.toInt < -1 ∨ n.toInt = 2 ^ 31 - 1) :
    (n + 1).toInt < 0 := by
  by_cases hLargest : n.toInt = 2 ^ 31 - 1
  · have hEq : n = Int32.maxValue := by
      apply Int32.toInt_inj.mp
      rw [hLargest]
      rfl
    rw [hEq]
    decide
  · rw [toInt_succ hLargest]
    omega

/- Otherwise there may be a block of the size. -/
theorem ptrdiffMax_lt_sizeOfInt_succ_iff
    {n : Int32} :
    ptrdiffMax < sizeOfInt (n + 1) ↔
      n.toInt < -1 ∨ n.toInt = 2 ^ 31 - 1 := by
  constructor
  · intro hLarge
    by_contra hFits
    have hUpper := n.toInt_lt
    have hSum := @toInt_succ n (by omega)
    unfold ptrdiffMax sizeOfInt at hLarge
    omega
  · intro hWrong
    exact ptrdiffMax_lt_sizeOfInt (toInt_succ_neg hWrong)

end KString

end KDoth

------------------------------------------------------------
-- Formatted Strings
------------------------------------------------------------

namespace KDoth

/-
  What is made of the error -1: a string that is as long as
  can be, in a block of no bytes.
-/
structure StringView.Undersized
    (cell cell' : Nat → Option StringCell)
    (a : Nat) : Prop where
  object : cell a = none
  bare :
    ∃ p b,
      cell p = none ∧
        cell' a =
            some
              (.object
                { refCount := 1
                  size := KString.sizeOfInt (-1)
                  buffer := some p }) ∧
          cell' p = some (.block b) ∧
            b.bytes = []

/-
  The allocator refuses the object or the block of a formatted
  string, with the requests from `n` on.
-/
def Formatting.Refused
    (format : Formatting)
    (source : AddressSource)
    (n : Nat) : Prop :=
  source n (.objectNew .kString) = none ∨
    source (n + 1)
        (.stringFormat (KString.sizeOfInt (format.count + 1))) =
      none

namespace KStringHead

open Command MemoryCall StringCall StringView

variable {s : StringMemory} {source : AddressSource}
variable {format : Formatting}

/- The text and its terminator fill the block. -/
theorem wp_vsnprintf
    {p : Nat}
    {b : ByteBlock}
    {E : Fault → StringMemory → Prop}
    {Q : Unit → StringMemory → Prop}
    (hLive : s.cell p = some (.block b))
    (hSize : b.bytes.length = format.text.length + 1)
    (hPost :
      ∀ s' b',
        s'.process = s.process →
          s'.cell =
              Function.update s.cell p (some (.block b')) →
            b'.bytes = format.text.map some ++ [some 0] →
              Q () s') :
    wp
      (vsnprintf (some p) (format.text.length + 1) format) Q E
      s := by
  have hFilled :
      (format.text.take (format.text.length + 1 - 1) ++
          [0]).map some =
        format.text.map some ++ [some 0] := by
    rw [Nat.add_sub_cancel, List.take_length, List.map_append]
    rfl
  have hLength :
      (format.text.map some ++ [some (0 : UInt8)]).length =
        b.bytes.length := by
    rw [List.length_append, List.length_map, hSize]
    rfl
  unfold vsnprintf
  rw [if_neg (Nat.succ_ne_zero _), hFilled,
    wp_write hLive (by omega)]
  apply hPost
  · rfl
  · rfl
  · change
      b.bytes.take 0 ++ (format.text.map some ++ [some 0]) ++
          b.bytes.drop (0 + _) = _
    rw [List.take_zero, List.nil_append, Nat.zero_add, hLength,
      List.drop_length, List.append_nil]

/- The requests there are after a formatted string. -/
def requestsAfter
    (source : AddressSource)
    (n : Nat) : Nat :=
  match source n (.objectNew .kString) with
  | none => n + 1
  | some _ => n + 2

/-
  The text that `vsnprintf` counted is in the block with its
  terminator. Only the error -1 leaves anything else, as the
  size of the block is then zero, and other errors ask for
  more than there is.
-/
theorem wp_newWithFormatV
    {Q : Option Nat → StringMemory → Prop}
    {E : Fault → StringMemory → Prop}
    (hOccupied : ∀ s', E .occupied s')
    (hNull :
      ∀ s',
        (format.Refused source s.nextRequest ∨
            format.count.toInt < -1 ∨
            format.count.toInt = 2 ^ 31 - 1) →
          s'.nextRequest = requestsAfter source s.nextRequest →
            s'.cell = s.cell → Q none s')
    (hMade :
      0 ≤ format.count.toInt →
        ¬ format.Refused source s.nextRequest →
          ∀ a s' v,
            s'.nextRequest = requestsAfter source s.nextRequest →
              Made s.cell s'.cell a v →
                v.refCount = 1 →
                  v.bytes = format.text →
                    v.extra = [some 0] → Q (some a) s')
    (hWrong :
      format.count.toInt = -1 →
        ¬ format.Refused source s.nextRequest →
          ∀ a s',
            Undersized s.cell s'.cell a → Q (some a) s') :
    wp (newWithFormatV source format) Q E s := by
  unfold newWithFormatV
  rw [wp_bind]
  apply wp_objectNew_string hOccupied
  · intro s' hRefused hProcess hCell
    apply hNull s' (.inl (.inl hRefused)) _ hCell
    rw [requestsAfter, hRefused]
    exact nextRequest_of_requested hProcess
  intro str s₁ hObject hFree hProcess hCell₁
  have hRequests :
      ∀ (s₂ : StringMemory) (site : AllocationSite),
        s₂.process = s₁.process.requested site →
          s₂.nextRequest =
            requestsAfter source s.nextRequest := by
    intro s₂ site hProcess₂
    rw [requestsAfter, hObject,
      nextRequest_of_requested hProcess₂,
      nextRequest_of_requested hProcess]
  simp only [wp_bind]
  apply wp_malloc hOccupied
  · intro s₂ hRefused hProcess₂ hCell₂
    have hLive₂ :
        s₂.cell str = some (.object ⟨1, 0, none⟩) := by
      rw [hCell₂, hCell₁, Function.update_self]
    simp only [wp_bind, wp_setBuffer hLive₂,
      wp_setSize Memory.setCell_self, Option.isSome_none,
      Option.isNone_none, Bool.false_eq_true, if_false, if_true,
      wp_pure]
    apply wp_release_unfinished Memory.setCell_self
    intro s₃ hProcess₃ hCell₃
    apply hNull
    · rcases hRefused with hBlock | hLarge
      · left
        right
        rw [hProcess, Process.requested_requests,
          List.length_append] at hBlock
        exact hBlock
      · right
        exact KString.ptrdiffMax_lt_sizeOfInt_succ_iff.mp hLarge
    · exact hRequests s₃ _ (hProcess₃.trans hProcess₂)
    · rw [hCell₃]
      simp only [Memory.setCell_cell, Function.update_idem,
        hCell₂, hCell₁]
      rw [← hFree, Function.update_eq_self]
  · intro p s₂ block hAnswer hFreeBlock hProcess₂ hCell₂ hBlock
    have hGranted : ¬ format.Refused source s.nextRequest := by
      rw [hProcess, Process.requested_requests,
        List.length_append, List.length_singleton] at hAnswer
      rintro (hNone | hNone)
      · rw [hObject] at hNone
        cases hNone
      · rw [hNone] at hAnswer
        cases hAnswer
    have hPlaced :=
      Placed.of_updates hFree hCell₁ hFreeBlock hCell₂
    have hReady :=
      (hPlaced.setObject ⟨1, 0, some p⟩).setObject
        ⟨1, KString.sizeOfInt format.count, some p⟩
    have hLength :
        block.bytes.length =
          KString.sizeOfInt (format.count + 1) := by
      rw [hBlock, List.length_replicate]
    simp only [wp_bind, wp_setBuffer hPlaced.object,
      wp_setSize Memory.setCell_self, Option.isSome_some,
      Option.isNone_some, Bool.false_eq_true, if_false, if_true,
      wp_pure]
    by_cases hError : format.count.toInt = -1
    · have hCount : format.count = -1 :=
        Int32.toInt_inj.mp hError
      have hZero : KString.sizeOfInt (format.count + 1) = 0 := by
        rw [hCount]
        rfl
      rw [hZero] at hLength ⊢
      apply hWrong hError hGranted
      refine
        ⟨hFree, p, block, hReady.freeBlock, ?_, hReady.block, ?_⟩
      · rw [Memory.setCell_self, hCount]
      · exact List.length_eq_zero_iff.mp hLength
    · have hFits : ¬ ptrdiffMax < block.bytes.length :=
        Nat.not_lt.mpr block.small
      rw [hLength, KString.ptrdiffMax_lt_sizeOfInt_succ_iff]
        at hFits
      have hText : 0 ≤ format.count.toInt := by omega
      have hCounted := format.counted hText
      have hSize :
          KString.sizeOfInt (format.count + 1) =
            format.text.length + 1 := by
        rw [KString.sizeOfInt_succ hText (by omega)]
        omega
      have hTextSize :
          KString.sizeOfInt format.count =
            format.text.length := by
        rw [KString.sizeOfInt_of_nonneg hText]
        omega
      rw [hSize]
      rw [hTextSize] at hReady ⊢
      apply wp_vsnprintf hReady.block (by omega)
      intro s₄ filled hProcess₄ hCell₄ hFilled
      have hMade₄ := (hReady.setBlock hCell₄).made hFilled
      apply hMade hText hGranted str s₄ _ _ hMade₄ rfl rfl rfl
      exact hRequests s₄ _ (hProcess₄.trans hProcess₂)

end KStringHead

end KDoth
