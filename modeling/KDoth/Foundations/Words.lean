import Mathlib.Data.Nat.ModEq
import Mathlib.Data.Nat.Prime.Basic

/-
  Words of 64 bits under multiplication, and loops whose
  steps lose nothing of the state.

  Key theorems include:
    * `Words.mul_right_injective_of_odd`
    * `Words.foldl_injective`
-/

------------------------------------------------------------
-- Odd Multipliers
------------------------------------------------------------

namespace KDoth

namespace Words

/- An odd number has no factor in common with the word size. -/
theorem coprime_of_odd
    {m : UInt64}
    (hOdd : Odd m.toNat) :
    Nat.Coprime (2 ^ 64) m.toNat :=
  Nat.Coprime.pow_left 64 (Nat.coprime_two_left.mpr hOdd)

/- Multiplying by an odd word modulo 2^64 loses nothing. -/
theorem mul_right_injective_of_odd
    {m : UInt64}
    (hOdd : Odd m.toNat) :
    Function.Injective (fun x : UInt64 => x * m) := by
  intro x y hEq
  have hNat :
      x.toNat * m.toNat ≡ y.toNat * m.toNat
        [MOD 2 ^ 64] := by
    have hProducts := congrArg UInt64.toNat hEq
    rw [UInt64.toNat_mul, UInt64.toNat_mul] at hProducts
    exact hProducts
  have hCancelled :=
    hNat.cancel_right_of_coprime (coprime_of_odd hOdd)
  apply UInt64.toNat.inj
  exact hCancelled.eq_of_lt_of_lt x.toNat_lt y.toNat_lt

end Words

end KDoth

------------------------------------------------------------
-- Loops
------------------------------------------------------------

namespace KDoth

namespace Words

variable {State Item : Type}
variable {step : State → Item → State}

/-
  A loop whose every step is injective in the state is
  injective in the state it starts from.
-/
theorem foldl_injective
    (hStep :
      ∀ item,
        Function.Injective (fun state => step state item))
    (items : List Item) :
    Function.Injective
      (fun state => items.foldl step state) := by
  induction items with
  | nil => exact Function.injective_id
  | cons item items ih =>
      intro state state' hEq
      exact hStep item (ih hEq)

/-
  Two runs of such a loop that differ in one item end apart
  when that item takes the state they share to two states.
-/
theorem foldl_ne_of_one_item
    (hStep :
      ∀ item,
        Function.Injective (fun state => step state item))
    {start : State}
    {front back : List Item}
    {item item' : Item}
    (hApart :
      step (front.foldl step start) item ≠
        step (front.foldl step start) item') :
    (front ++ item :: back).foldl step start ≠
      (front ++ item' :: back).foldl step start := by
  rw [List.foldl_append, List.foldl_append,
    List.foldl_cons, List.foldl_cons]
  intro hEq
  exact hApart (foldl_injective hStep back hEq)

end Words

end KDoth
