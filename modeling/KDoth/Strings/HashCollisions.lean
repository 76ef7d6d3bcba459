import KDoth.Strings.KHash
import KDoth.Foundations.Words

/-
  Two buffers that differ in one byte never have the same
  `KHashCreate`: the multiplier is odd, so that no round of
  the loop loses anything of the state.

  Key definitions include:
    * `KHash.OneByteApart`

  Key theorems include:
    * `KHash.step_injective`
    * `KHash.step_injective_byte`
    * `KHash.create_tells_one_byte_apart`
-/

------------------------------------------------------------
-- Rounds
------------------------------------------------------------

namespace KDoth

namespace KHash

/- The multiplier is odd. -/
theorem kFNVPrime_odd : Odd kFNVPrime.toNat := by
  decide

/- A round loses nothing of the intermediate hash. -/
theorem step_injective
    (byte : UInt8) :
    Function.Injective (fun hash => step hash byte) := by
  intro hash hash' hEq
  have hXor :=
    Words.mul_right_injective_of_odd kFNVPrime_odd hEq
  exact (UInt64.xor_left_inj byte.toUInt64).mp hXor

/- A round loses nothing of the byte either. -/
theorem step_injective_byte
    (hash : KHash) :
    Function.Injective (step hash) := by
  intro byte byte' hEq
  have hXor :=
    Words.mul_right_injective_of_odd kFNVPrime_odd hEq
  have hWide :=
    congrArg UInt64.toNat
      ((UInt64.xor_right_inj hash).mp hXor)
  rw [UInt8.toNat_toUInt64, UInt8.toNat_toUInt64] at hWide
  exact UInt8.toNat.inj hWide

/- The rounds over a buffer lose nothing of the hash. -/
theorem foldl_step_injective
    (data : List UInt8) :
    Function.Injective (fun hash => data.foldl step hash) :=
  Words.foldl_injective step_injective data

end KHash

end KDoth

------------------------------------------------------------
-- Single-Byte Differences
------------------------------------------------------------

namespace KDoth

namespace KHash

/- Two buffers of one length that differ in one position. -/
def OneByteApart (data data' : List UInt8) : Prop :=
  data.length = data'.length ∧
    ∃! i : Nat, data[i]? ≠ data'[i]?

/- They share all that is before and after the position. -/
theorem OneByteApart.split
    {data data' : List UInt8}
    (hApart : OneByteApart data data') :
    ∃ front byte byte' back,
      byte ≠ byte' ∧
        data = front ++ byte :: back ∧
        data' = front ++ byte' :: back := by
  rcases hApart with ⟨hLength, i, hDiffers, hOnly⟩
  have hSame :
      ∀ j, j ≠ i → data[j]? = data'[j]? := by
    intro j hNe
    by_contra hOther
    exact hNe (hOnly j hOther)
  have hLt : i < data.length := by
    by_contra hGe
    apply hDiffers
    rw [List.getElem?_eq_none (by omega),
      List.getElem?_eq_none (by omega)]
  have hLt' : i < data'.length := by omega
  have hFront : data.take i = data'.take i := by
    apply List.ext_getElem?
    intro j
    rw [List.getElem?_take, List.getElem?_take]
    split
    · exact hSame j (by omega)
    · rfl
  have hBack : data.drop (i + 1) = data'.drop (i + 1) := by
    apply List.ext_getElem?
    intro j
    rw [List.getElem?_drop, List.getElem?_drop]
    exact hSame (i + 1 + j) (by omega)
  refine
    ⟨data.take i, data[i], data'[i], data.drop (i + 1),
      ?_, ?_, ?_⟩
  · intro hEq
    apply hDiffers
    rw [List.getElem?_eq_getElem hLt,
      List.getElem?_eq_getElem hLt', hEq]
  · rw [List.getElem_cons_drop, List.take_append_drop]
  · rw [hFront, hBack, List.getElem_cons_drop,
      List.take_append_drop]

/-
  Buffers of any length that differ in exactly one byte have
  different hashes, and whatever suffix is still to come, the
  loop is injective in the hash it goes on from.
-/
theorem create_tells_one_byte_apart :
    (∀ data data' : List UInt8,
      OneByteApart data data' →
        create data ≠ create data') ∧
      ∀ suffix : List UInt8,
        Function.Injective
          (fun hash => suffix.foldl step hash) := by
  refine ⟨?_, foldl_step_injective⟩
  intro data data' hApart
  rcases hApart.split with
    ⟨front, byte, byte', back, hNe, hData, hData'⟩
  rw [hData, hData']
  unfold create
  apply Words.foldl_ne_of_one_item step_injective
  intro hEq
  exact hNe (step_injective_byte _ hEq)

/- Two buffers of three bytes that differ in the second. -/
theorem create_tells_second_of_three_apart :
    create [107, 46, 104] ≠ create [107, 47, 104] := by
  refine create_tells_one_byte_apart.1 _ _ ⟨rfl, 1, ?_, ?_⟩
  · decide
  · rintro (_ | _ | _ | i) hDiffers
    · exact absurd rfl hDiffers
    · rfl
    · exact absurd rfl hDiffers
    · exact absurd rfl hDiffers

end KHash

end KDoth
