import KDoth.Runtime.Granted
import KDoth.Strings.KString

/-
  The bytes of strings whose allocations succeed.

  Key definitions include:
    * `KString.Stored`
    * `KString.Holds`
    * `StoredString`

  Key theorems include:
    * `KString.yields_newWithData`
    * `KString.yields_append`
    * `KString.yields_newWithFormatV`
-/

------------------------------------------------------------
-- Stored Strings
------------------------------------------------------------

namespace KDoth

namespace KString

/- The block of the string has room for all of its bytes. -/
def Stored (string : KString) : Prop :=
  match string.buffer with
  | none => False
  | some block => string.size ≤ block.length

instance (string : KString) : Decidable string.Stored := by
  unfold Stored
  cases string.buffer <;> infer_instance

/- The string stores exactly the given bytes. -/
structure Holds
    (string : KString)
    (bytes : List UInt8) : Prop where
  stored : string.Stored
  bytes : string.bytes = bytes

theorem Stored.exists_block
    {string : KString}
    (hStored : string.Stored) :
    ∃ block,
      string.buffer = some block ∧
        string.size ≤ block.length ∧
        string.bytes = block.take string.size := by
  unfold Stored at hStored
  cases hBuffer : string.buffer with
  | none => simp [hBuffer] at hStored
  | some block =>
      rw [hBuffer] at hStored
      exact ⟨block, rfl, hStored, by simp [bytes, hBuffer]⟩

theorem Stored.holds
    {string : KString}
    (hStored : string.Stored) :
    string.Holds string.bytes :=
  ⟨hStored, rfl⟩

theorem Holds.length
    {string : KString}
    {bytes : List UInt8}
    (hHolds : string.Holds bytes) :
    bytes.length = string.size := by
  rcases hHolds.stored.exists_block with ⟨block, _, hRoom, hEq⟩
  rw [← hHolds.bytes, hEq, List.length_take]
  omega

/- The block starts with the bytes. -/
theorem Holds.exists_buffer
    {string : KString}
    {bytes : List UInt8}
    (hHolds : string.Holds bytes) :
    ∃ extra, string.buffer = some (bytes ++ extra) := by
  rcases hHolds.stored.exists_block with
    ⟨block, hBuffer, _, hEq⟩
  refine ⟨block.drop string.size, ?_⟩
  rw [hBuffer, ← hHolds.bytes, hEq, List.take_append_drop]

end KString

/- A string whose bytes can all be read. -/
structure StoredString where
  string : KString
  stored : string.Stored

end KDoth

------------------------------------------------------------
-- Calls On Stored Strings
------------------------------------------------------------

namespace KDoth

namespace KString

variable {allocator : Allocator}

theorem yields_retain
    (string : KString) :
    Yields (KObject.retain string) (fun _ => True) :=
  Yields.ofUpdate trivial

theorem yields_release
    (string : KString) :
    Yields (KObject.release string) (fun _ => True) :=
  Yields.ofObjectRelease (Yields.ret trivial)

/-
  Copying inside a block replaces what stood behind the
  offset and keeps the size of the block.
-/
theorem yields_copyBytes
    {block data : List UInt8}
    {offset count : Nat}
    (hBlock : offset + count ≤ block.length)
    (hData : count ≤ data.length) :
    Yields (copyBytes (some block) offset (some data) count)
      (fun r =>
        ∃ copied,
          r = some copied ∧
            copied.length = block.length ∧
            copied.take (offset + count) =
              block.take offset ++ data.take count) := by
  unfold copyBytes
  by_cases hZero : count = 0
  · rw [if_pos hZero, hZero]
    exact Yields.ret ⟨block, rfl, rfl, by simp⟩
  · rw [if_neg hZero]
    have hFront :
        (block.take offset ++ data.take count).length =
          offset + count := by
      rw [List.length_append, List.length_take,
        List.length_take]
      omega
    refine Yields.ret ⟨_, rfl, ?_, ?_⟩
    · rw [List.length_append, hFront, List.length_drop]
      omega
    · rw [← hFront]
      exact List.take_left

/- The first bytes of the data are copied. -/
theorem yields_newWithData
    (hGranted : ∀ n, allocator n = true)
    {data : List UInt8}
    {count : Nat}
    (hCount : count ≤ data.length) :
    Yields (newWithData allocator (some data) count)
      (fun r =>
        ∃ string,
          r = some string ∧
            string.Holds (data.take count)) := by
  unfold newWithData
  apply Yields.bind (Yields.ofObjectNew hGranted)
  rintro r ⟨address, hAddress⟩
  subst hAddress
  apply Yields.bind (Yields.ofRequest hGranted)
  intro granted hTrue
  subst hTrue
  simp only [if_true, Option.isNone_some, Bool.and_false,
    Bool.false_eq_true, if_false]
  have hBlock :
      0 + count ≤ (List.replicate count (0 : UInt8)).length := by
    rw [List.length_replicate]
    omega
  apply Yields.bind (yields_copyBytes hBlock hCount)
  rintro buffer ⟨copied, hCopied, hLength, hBytes⟩
  subst hCopied
  rw [List.length_replicate] at hLength
  rw [List.take_zero, List.nil_append, Nat.zero_add] at hBytes
  exact
    Yields.ret ⟨_, rfl, ⟨Nat.le_of_eq hLength.symm, hBytes⟩⟩

theorem yields_new
    (hGranted : ∀ n, allocator n = true) :
    Yields (new allocator)
      (fun r => ∃ string, r = some string ∧ string.Holds []) := by
  unfold new newWithData
  apply Yields.bind (Yields.ofObjectNew hGranted)
  rintro r ⟨address, hAddress⟩
  subst hAddress
  apply Yields.bind (Yields.ofRequest hGranted)
  intro granted hTrue
  subst hTrue
  exact Yields.ret ⟨_, rfl, ⟨Nat.le_refl 0, rfl⟩⟩

theorem yields_copy
    (hGranted : ∀ n, allocator n = true)
    {string : KString}
    {bytes : List UInt8}
    (hHolds : string.Holds bytes) :
    Yields (copy allocator (some string))
      (fun r => ∃ copied, r = some copied ∧ copied.Holds bytes) := by
  rcases hHolds.stored.exists_block with
    ⟨block, hBuffer, hRoom, hBytes⟩
  unfold copy
  simp only [hBuffer]
  rw [← hHolds.bytes, hBytes]
  exact yields_newWithData hGranted hRoom

/- The terminator is written behind the bytes. -/
theorem holds_terminated
    {address size : Nat}
    {block bytes : List UInt8}
    (hRoom : size ≤ block.length)
    (hBytes : block.take size = bytes) :
    Holds
      { address := address
        size := size
        buffer :=
          if size = 0 then
            some block
          else
            (some block).map fun block => block.set size 0 }
      bytes := by
  by_cases hZero : size = 0
  · rw [if_pos hZero]
    exact ⟨hRoom, hBytes⟩
  · rw [if_neg hZero]
    constructor
    · change size ≤ (block.set size 0).length
      rw [List.length_set]
      exact hRoom
    · change (block.set size 0).take size = bytes
      rw [List.take_set_of_le (Nat.le_refl size)]
      exact hBytes

/-
  Appending concatenates the bytes, as long as the bytes and
  the terminator have a size in `size_t`.
-/
theorem yields_append
    (hGranted : ∀ n, allocator n = true)
    {string suffix : KString}
    {front back : List UInt8}
    (hString : string.Holds front)
    (hSuffix : suffix.Holds back)
    (hFits : (front ++ back).length + 1 < 2 ^ 64) :
    Yields (append allocator string suffix)
      (fun r => r.2 = true ∧ r.1.Holds (front ++ back)) := by
  have hFront := hString.length
  have hBack := hSuffix.length
  rcases hString.stored.exists_block with
    ⟨old, hOld, hRoom, hFrontEq⟩
  rcases hSuffix.stored.exists_block with
    ⟨data, hData, hDataRoom, hBackEq⟩
  rw [hString.bytes] at hFrontEq
  rw [hSuffix.bytes] at hBackEq
  rw [List.length_append] at hFits
  have hSize :
      (string.size + suffix.size + 1) % 2 ^ 64 =
        string.size + suffix.size + 1 := by
    apply Nat.mod_eq_of_lt
    omega
  unfold append
  simp only [hSize]
  apply Yields.bind (Yields.ofRequest hGranted)
  intro granted hTrue
  subst hTrue
  simp only [Bool.true_and, bne_iff_ne, ne_eq,
    Nat.succ_ne_zero, not_false_eq_true, if_true, hOld, hData,
    Option.getD_some]
  have hBlock :
      (old.take (string.size + suffix.size + 1) ++
          List.replicate
            (string.size + suffix.size + 1 - old.length)
            (0 : UInt8)).length =
        string.size + suffix.size + 1 := by
    rw [List.length_append, List.length_take,
      List.length_replicate]
    omega
  have hInside :=
    Nat.le_trans (Nat.le_succ (string.size + suffix.size))
      (Nat.le_of_eq hBlock.symm)
  apply Yields.bind (yields_copyBytes hInside hDataRoom)
  rintro buffer ⟨copied, hCopied, hLength, hBytes⟩
  subst hCopied
  rw [hBlock] at hLength
  have hKept :
      (old.take (string.size + suffix.size + 1) ++
          List.replicate
            (string.size + suffix.size + 1 - old.length)
            (0 : UInt8)).take string.size = front := by
    rw [hFrontEq, List.take_append_of_le_length,
      List.take_take]
    · congr 1
      omega
    · rw [List.length_take]
      omega
  rw [hKept, ← hBackEq] at hBytes
  apply Yields.ret
  refine ⟨rfl, holds_terminated ?_ hBytes⟩
  omega

/- Appending on strings that are not NULL. -/
theorem yields_appendOrNull
    (hGranted : ∀ n, allocator n = true)
    {string suffix : KString}
    {front back : List UInt8}
    (hString : string.Holds front)
    (hSuffix : suffix.Holds back)
    (hFits : (front ++ back).length + 1 < 2 ^ 64) :
    Yields
      (appendOrNull allocator (some string) (some suffix))
      (fun r =>
        ∃ joined,
          r = (some joined, true) ∧
            joined.Holds (front ++ back)) := by
  unfold appendOrNull
  apply Yields.bind
    (yields_append hGranted hString hSuffix hFits)
  rintro ⟨joined, appended⟩ ⟨hAppended, hJoined⟩
  change appended = true at hAppended
  subst hAppended
  exact Yields.ret ⟨joined, rfl, hJoined⟩

/- Formatting a character gives the string of its byte. -/
theorem yields_newWithFormatV
    (hGranted : ∀ n, allocator n = true)
    (byte : UInt8) :
    Yields (newWithFormatV allocator 1 [byte])
      (fun r => ∃ string, r = some string ∧ string.Holds [byte]) := by
  unfold newWithFormatV
  apply Yields.bind (Yields.ofObjectNew hGranted)
  rintro r ⟨address, hAddress⟩
  subst hAddress
  apply Yields.bind (Yields.ofRequest hGranted)
  intro granted hTrue
  subst hTrue
  exact Yields.ret ⟨_, rfl, ⟨Nat.le_succ 1, rfl⟩⟩

end KString

end KDoth
