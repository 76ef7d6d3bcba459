import Mathlib.Algebra.Group.Nat.Defs
import Mathlib.Data.Nat.Log
import KDoth.Runtime.Refusals

/-
  Contiguous allocations of `kallocation.c`, as far as the
  collections see them: whether the buffer is NULL, whether
  it was freed, and how large it was asked to be. The
  contents of the buffer are kept by the array that owns the
  allocation.

  Key definitions include:
    * `KAllocation`
    * `KAllocation.useBuffer`
    * `KAllocation.truncate`
    * `KAllocation.nextPowerOfTwoSize`

  Key theorems include:
    * `KAllocation.toNat_nextPowerOfTwoSize`
    * `KAllocation.nextPowerOfTwoSize_exact`
    * `KAllocation.nextPowerOfTwoSize_of_gt`
-/

------------------------------------------------------------
-- Allocations
------------------------------------------------------------

namespace KDoth

/-
  `hasBuffer` is false while `buffer` is NULL. `freed` is not
  in the program: `buffer` points to a block that was freed.
-/
structure KAllocation where
  address : Nat
  size : Nat
  hasBuffer : Bool
  freed : Bool := false
deriving DecidableEq, Repr

namespace KAllocation

/- `KAllocationNew`. Objects are zero initialized. -/
def new
    (allocator : Allocator) :
    Call (Option KAllocation) := do
  match ← objectNew allocator .kAllocation with
  | none => pure none
  | some address =>
      pure (some
        { address := address
          size := 0
          hasBuffer := false })

/- The buffer is accessed, or passed to `realloc` or `free`. -/
def useBuffer (allocation : KAllocation) : Call Unit :=
  if allocation.freed then modify Process.strayed
  else pure ()

/- `KAllocationDeInit` frees the buffer. -/
def deInit (allocation : KAllocation) : Call Unit :=
  allocation.useBuffer

instance : KObject KAllocation where
  retain allocation := objectRetain allocation.address
  release allocation :=
    objectRelease allocation.address allocation.deInit

/-
  `KAllocationTruncate`. `realloc` answers NULL when it fails
  and also when it is asked to shrink a block to nothing,
  which it frees. The call answers false to both and keeps
  the pointer.
-/
def truncate
    (allocator : Allocator)
    (allocation : KAllocation)
    (size : Nat) :
    Call (KAllocation × Bool) := do
  allocation.useBuffer
  let granted ← request allocator (.truncate size)
  if granted && !(size == 0 && allocation.hasBuffer) then
    pure
      ({ allocation with size := size, hasBuffer := true },
        true)
  else
    -- A request that is granted here is one of size 0.
    pure
      ({ allocation with
          freed := allocation.freed || granted },
        false)

/- `KAllocationGetBuffer` does not check for NULL. -/
def getBuffer :
    Option KAllocation → Call Bool
| none => throw .nullDereference
| some allocation => pure allocation.hasBuffer

/- `KAllocationNextPowerOfTwoSize`. -/
def nextPowerOfTwoSize (x : UInt32) : UInt32 :=
  if x = 0 then
    1
  else
    let x := x - 1
    let x := x ||| x >>> 1
    let x := x ||| x >>> 2
    let x := x ||| x >>> 4
    let x := x ||| x >>> 8
    let x := x ||| x >>> 16
    x + 1

end KAllocation

end KDoth

------------------------------------------------------------
-- Sizes
------------------------------------------------------------

namespace KDoth

namespace KAllocation

/- The five rounds of smearing. -/
def smeared (x : UInt32) : UInt32 :=
  let x := x ||| x >>> 1
  let x := x ||| x >>> 2
  let x := x ||| x >>> 4
  let x := x ||| x >>> 8
  x ||| x >>> 16

/- A request that is not zero is one less, smeared, plus one. -/
theorem nextPowerOfTwoSize_of_ne_zero
    {x : UInt32}
    (hZero : x ≠ 0) :
    nextPowerOfTwoSize x = smeared (x - 1) + 1 := by
  unfold nextPowerOfTwoSize
  rw [if_neg hZero]
  rfl

/- A request that is not zero has a predecessor. -/
theorem toNat_pred
    {x : UInt32}
    (hZero : x ≠ 0) :
    (x - 1).toNat + 1 = x.toNat := by
  have hPos : 1 ≤ x.toNat := by
    rcases Nat.eq_zero_or_pos x.toNat with h | h
    · exact absurd (UInt32.toNat.inj h) hZero
    · exact h
  rw [UInt32.toNat_sub_of_le _ _ hPos]
  simp only [UInt32.reduceToNat]
  omega

/- Smearing the set bits downwards sets none above them. -/
theorem smear_lt
    {x : UInt32}
    {m : Nat}
    (k : UInt32)
    (hx : x.toNat < 2 ^ m) :
    (x ||| x >>> k).toNat < 2 ^ m := by
  rw [UInt32.toNat_or, UInt32.toNat_shiftRight]
  refine Nat.or_lt_two_pow hx ?_
  exact Nat.lt_of_le_of_lt (Nat.shiftRight_le _ _) hx

/- So do the five rounds. -/
theorem smeared_lt
    {x : UInt32}
    {m : Nat}
    (hx : x.toNat < 2 ^ m) :
    (smeared x).toNat < 2 ^ m :=
  smear_lt 16 (smear_lt 8 (smear_lt 4
    (smear_lt 2 (smear_lt 1 hx))))

/- The `m` bits from bit `h` down are set. -/
def Filled (x : UInt32) (h m : Nat) : Prop :=
  ∀ i, i ≤ h → h < i + m → x.toNat.testBit i = true

/- Each shift doubles the bits that are set. -/
theorem Filled.smear
    {x k : UInt32}
    {h : Nat}
    (hFilled : Filled x h k.toNat)
    (hShift : k.toNat < 32) :
    Filled (x ||| x >>> k) h (2 * k.toNat) := by
  intro i hLe hLt
  rw [UInt32.toNat_or, UInt32.toNat_shiftRight,
    Nat.testBit_or, Nat.testBit_shiftRight,
    Nat.mod_eq_of_lt hShift, Bool.or_eq_true]
  by_cases hNear : h < i + k.toNat
  · left
    exact hFilled i hLe hNear
  · right
    exact hFilled (k.toNat + i) (by omega) (by omega)

/- The five rounds fill the word below a bit that is set. -/
theorem Filled.smeared
    {x : UInt32}
    {h : Nat}
    (hTop : Filled x h 1) :
    Filled (smeared x) h 32 :=
  ((((hTop.smear (k := 1) (by decide)).smear
    (k := 2) (by decide)).smear
      (k := 4) (by decide)).smear
        (k := 8) (by decide)).smear
          (k := 16) (by decide)

/-
  Smearing a number whose top bit is bit `h` sets that bit,
  all bits below it, and no other.
-/
theorem toNat_smeared
    {x : UInt32}
    {h : Nat}
    (hWord : h < 32)
    (hLow : 2 ^ h ≤ x.toNat)
    (hHigh : x.toNat < 2 ^ (h + 1)) :
    (smeared x).toNat = 2 ^ (h + 1) - 1 := by
  have hTop : Filled x h 1 := by
    intro i hLe hLt
    have hBit : i = h := by omega
    rw [hBit]
    exact
      Nat.testBit_of_two_pow_le_and_two_pow_add_one_gt hLow
        hHigh
  apply Nat.eq_of_testBit_eq
  intro i
  rw [Nat.testBit_two_pow_sub_one]
  by_cases hLt : i < h + 1
  · rw [hTop.smeared i (by omega) (by omega)]
    simp [hLt]
  · have hSmall : (smeared x).toNat < 2 ^ i :=
      Nat.lt_of_lt_of_le (smeared_lt hHigh)
        (Nat.pow_le_pow_right (by decide) (by omega))
    rw [Nat.testBit_lt_two_pow hSmall]
    simp [hLt]

/-
  Smearing what is below a request fills all the bits below
  the least power of two that holds the request.
-/
theorem toNat_smeared_pred
    {x : UInt32}
    (hZero : x ≠ 0) :
    (smeared (x - 1)).toNat = 2 ^ Nat.clog 2 x.toNat - 1 := by
  have hPred := toNat_pred hZero
  have hHolds := Nat.le_pow_clog (by decide : 1 < 2) x.toNat
  cases hLog : Nat.clog 2 x.toNat with
  | zero =>
      rw [hLog] at hHolds
      have hLt : (x - 1).toNat < 2 ^ 0 := by omega
      have hSmeared := smeared_lt hLt
      omega
  | succ h =>
      rw [hLog] at hHolds
      have hBelow : 2 ^ h < x.toNat :=
        Nat.pow_lt_of_lt_clog (by omega)
      have hBound := x.toNat_lt
      have hWord : h < 32 := by
        by_contra hLarge
        have hPow : 2 ^ 32 ≤ 2 ^ h :=
          Nat.pow_le_pow_right (by decide) (by omega)
        omega
      exact toNat_smeared hWord (by omega) (by omega)

/-
  Up to 2^31 the size is the least power of two that holds
  what was asked for.
-/
theorem toNat_nextPowerOfTwoSize
    {x : UInt32}
    (hx : x.toNat ≤ 2 ^ 31) :
    (nextPowerOfTwoSize x).toNat = 2 ^ Nat.clog 2 x.toNat := by
  by_cases hZero : x = 0
  · rw [hZero]
    rfl
  · have hFits : 2 ^ Nat.clog 2 x.toNat ≤ 2 ^ 31 :=
      Nat.pow_le_pow_right (by decide)
        (Nat.clog_le_of_le_pow hx)
    have hPos : 0 < 2 ^ Nat.clog 2 x.toNat :=
      Nat.two_pow_pos _
    rw [nextPowerOfTwoSize_of_ne_zero hZero,
      UInt32.toNat_add, toNat_smeared_pred hZero]
    simp only [UInt32.reduceToNat]
    omega

/- Up to 2^31 the size is at least what was asked for. -/
theorem le_nextPowerOfTwoSize
    {x : UInt32}
    (hx : x.toNat ≤ 2 ^ 31) :
    x.toNat ≤ (nextPowerOfTwoSize x).toNat := by
  rw [toNat_nextPowerOfTwoSize hx]
  exact Nat.le_pow_clog (by decide) _

/- Up to 2^31 the size does not wrap around to zero. -/
theorem nextPowerOfTwoSize_pos
    {x : UInt32}
    (hx : x.toNat ≤ 2 ^ 31) :
    0 < (nextPowerOfTwoSize x).toNat := by
  rw [toNat_nextPowerOfTwoSize hx]
  exact Nat.two_pow_pos _

/- Up to 2^31 the size is at most 2^31 too. -/
theorem nextPowerOfTwoSize_le
    {x : UInt32}
    (hx : x.toNat ≤ 2 ^ 31) :
    (nextPowerOfTwoSize x).toNat ≤ 2 ^ 31 := by
  rw [toNat_nextPowerOfTwoSize hx]
  exact
    Nat.pow_le_pow_right (by decide)
      (Nat.clog_le_of_le_pow hx)

/- Up to 2^31 a larger request is never given less. -/
theorem nextPowerOfTwoSize_mono
    {x y : UInt32}
    (hLe : x.toNat ≤ y.toNat)
    (hy : y.toNat ≤ 2 ^ 31) :
    (nextPowerOfTwoSize x).toNat ≤
      (nextPowerOfTwoSize y).toNat := by
  rw [toNat_nextPowerOfTwoSize hy,
    toNat_nextPowerOfTwoSize (Nat.le_trans hLe hy)]
  exact
    Nat.pow_le_pow_right (by decide)
      (Nat.clog_mono_right 2 hLe)

/- Up to 2^31 a size that was given is a size as it stands. -/
theorem nextPowerOfTwoSize_idem
    {x : UInt32}
    (hx : x.toNat ≤ 2 ^ 31) :
    nextPowerOfTwoSize (nextPowerOfTwoSize x) =
      nextPowerOfTwoSize x := by
  apply UInt32.toNat.inj
  rw [toNat_nextPowerOfTwoSize (nextPowerOfTwoSize_le hx),
    toNat_nextPowerOfTwoSize hx,
    Nat.clog_pow 2 _ (by decide)]

/-
  The smearing is exact: up to 2^31 the size is a power of
  two, it holds the request, no smaller power of two does,
  and on that range the function is idempotent and monotone.
-/
theorem nextPowerOfTwoSize_exact
    {x : UInt32}
    (hx : x.toNat ≤ 2 ^ 31) :
    (∃ k, (nextPowerOfTwoSize x).toNat = 2 ^ k) ∧
      max x.toNat 1 ≤ (nextPowerOfTwoSize x).toNat ∧
      (∀ k,
        2 ^ k < (nextPowerOfTwoSize x).toNat →
          ¬x.toNat ≤ 2 ^ k) ∧
      nextPowerOfTwoSize (nextPowerOfTwoSize x) =
        nextPowerOfTwoSize x ∧
      ∀ y : UInt32,
        x.toNat ≤ y.toNat →
          y.toNat ≤ 2 ^ 31 →
            (nextPowerOfTwoSize x).toNat ≤
              (nextPowerOfTwoSize y).toNat := by
  refine
    ⟨⟨_, toNat_nextPowerOfTwoSize hx⟩, ?_, ?_,
      nextPowerOfTwoSize_idem hx,
      fun y hLe hy => nextPowerOfTwoSize_mono hLe hy⟩
  · exact
      Nat.max_le.mpr
        ⟨le_nextPowerOfTwoSize hx, nextPowerOfTwoSize_pos hx⟩
  · intro k hSmaller hHolds
    rw [toNat_nextPowerOfTwoSize hx] at hSmaller
    have hLog : k < Nat.clog 2 x.toNat :=
      (Nat.pow_lt_pow_iff_right (by decide)).mp hSmaller
    have hBelow := Nat.pow_lt_of_lt_clog hLog
    omega

/- The request of 65 that the tests make. -/
theorem nextPowerOfTwoSize_exact_at_65 :
    (∃ k, (nextPowerOfTwoSize 65).toNat = 2 ^ k) ∧
      max 65 1 ≤ (nextPowerOfTwoSize 65).toNat ∧
      nextPowerOfTwoSize (nextPowerOfTwoSize 65) =
        nextPowerOfTwoSize 65 := by
  rcases nextPowerOfTwoSize_exact (x := 65) (by decide) with
    ⟨hPower, hHolds, -, hIdem, -⟩
  exact ⟨hPower, hHolds, hIdem⟩

/- Above 2^31 the size wraps around to zero. -/
theorem nextPowerOfTwoSize_of_gt
    {x : UInt32}
    (hx : 2 ^ 31 < x.toNat) :
    (nextPowerOfTwoSize x).toNat = 0 := by
  have hZero : x ≠ 0 := by
    intro hEq
    rw [hEq] at hx
    exact absurd hx (by decide)
  have hPred := toNat_pred hZero
  have hAll :=
    toNat_smeared (x := x - 1) (h := 31) (by decide) (by omega)
      (x - 1).toNat_lt
  rw [nextPowerOfTwoSize_of_ne_zero hZero, UInt32.toNat_add,
    hAll]
  rfl

end KAllocation

end KDoth

------------------------------------------------------------
-- Safe Use
------------------------------------------------------------

namespace KDoth

namespace KAllocation

open Command

variable {allocator : Allocator} {A : Prop}

/- A buffer that is not freed leaves no trace of its use. -/
theorem useBuffer_of_kept
    {allocation : KAllocation}
    (hKept : allocation.freed = false) :
    allocation.useBuffer = pure () := by
  unfold useBuffer
  rw [hKept]
  rfl

@[simp] theorem wp_useBuffer
    {allocation : KAllocation}
    {Q : Unit → Process → Prop}
    {E : Stop → Process → Prop}
    {p : Process} :
    wp allocation.useBuffer Q E p ↔
      Q () (if allocation.freed then p.strayed else p) := by
  unfold useBuffer
  split <;> rfl

/- A use of the buffer makes no request. -/
theorem runs_useBuffer
    (allocation : KAllocation) :
    Runs allocator A allocation.useBuffer (fun _ => True) := by
  unfold useBuffer
  split
  · exact Runs.update (fun _ => rfl) trivial
  · exact Runs.ret trivial

instance : SafeObject KAllocation where
  WellBuilt _ := True
  runs_retain _ _ _ := Runs.ofObjectRetain
  runs_release _ _ allocation _ :=
    Runs.ofObjectRelease allocation.runs_useBuffer

/- A truncated allocation has a buffer. -/
theorem runs_truncate
    (allocation : KAllocation)
    (size : Nat) :
    Runs allocator A (truncate allocator allocation size)
      (fun r =>
        (r.2 = true → r.1.hasBuffer = true) ∧
          (r.2 = false →
            r.1.hasBuffer = allocation.hasBuffer ∧
              ((∃ n, allocator n = false) ∨ size = 0))) := by
  refine Runs.bind allocation.runs_useBuffer ?_
  intro _ _
  refine Runs.bind (Runs.ofRequest rfl) ?_
  intro granted hGranted
  cases granted with
  | false =>
      exact
        Runs.ret ⟨by simp, fun _ => ⟨rfl, Or.inl (hGranted rfl)⟩⟩
  | true =>
      by_cases hShrink :
          (size == 0 && allocation.hasBuffer) = true
      · have hZero : size = 0 := by
          simpa using (Bool.and_eq_true_iff.mp hShrink).1
        simp only [hShrink, Bool.not_true, Bool.and_false,
          Bool.false_eq_true, if_false]
        exact Runs.ret ⟨by simp, fun _ => ⟨rfl, Or.inr hZero⟩⟩
      · simp only [hShrink, Bool.not_false, Bool.and_true,
          if_true]
        exact Runs.ret ⟨fun _ => rfl, by simp⟩

end KAllocation

end KDoth
