import KDoth.Runtime.Refusals
import KDoth.Strings.KHash
import Mathlib.Algebra.Group.Int.Defs
import Mathlib.Algebra.Group.Nat.Defs

/-
  Strings of `kstring.c` over the process state. The buffer
  is NULL or a block of bytes, of which the first `size` are
  the string.

  Key definitions include:
    * `KString`
    * `KString.newWithData`
    * `KString.copy`
    * `KString.append`
    * `KString.newWithFormatV`
    * `KString.getHash`
    * `KString.isEqual`

  Key theorems include:
    * `KString.isEqual_iff`
    * `KString.runs_newWithData`
    * `KString.runs_append`
-/

------------------------------------------------------------
-- Strings
------------------------------------------------------------

namespace KDoth

structure KString where
  address : Nat
  size : Nat
  buffer : Option (List UInt8)
deriving DecidableEq, Repr

namespace KString

/- `KStringDeInit` frees the buffer. -/
def deInit (_string : KString) : Call Unit :=
  pure ()

instance : KObject KString where
  retain string := objectRetain string.address
  release string := objectRelease string.address string.deInit

/- The bytes of the string. -/
def bytes (string : KString) : List UInt8 :=
  (string.buffer.getD []).take string.size

/-
  `memcpy` and `memmove` into a block at an offset. Copying
  nothing touches neither side.
-/
def copyBytes
    (destination : Option (List UInt8))
    (offset : Nat)
    (source : Option (List UInt8))
    (count : Nat) :
    Call (Option (List UInt8)) :=
  if count = 0 then
    pure destination
  else
    match destination, source with
    | some block, some data =>
        pure (some
          (block.take offset ++ data.take count ++
            block.drop (offset + count)))
    | _, _ => throw .nullDereference

/-
  `KStringNewWithData`. A buffer that could not be allocated
  is only noticed when no byte was asked for.
-/
def newWithData
    (allocator : Allocator)
    (data : Option (List UInt8))
    (count : Nat) :
    Call (Option KString) := do
  match ← objectNew allocator .kString with
  | none => pure none
  | some address =>
      let granted ← request allocator (.stringData count)
      let block :=
        if granted then some (List.replicate count 0) else none
      if count = 0 && block.isNone then
        KObject.release
          { address := address
            size := count
            buffer := block : KString }
        pure none
      else
        let buffer ← copyBytes block 0 data count
        pure (some
          { address := address
            size := count
            buffer := buffer })

/- `KStringNew`. -/
def new (allocator : Allocator) : Call (Option KString) :=
  newWithData allocator none 0

/- `KStringCopy`. -/
def copy
    (allocator : Allocator)
    (string : Option KString) :
    Call (Option KString) :=
  match string with
  | none => pure none
  | some string =>
      newWithData allocator string.buffer string.size

/-
  `KStringAppend` on strings that are not NULL. The size of
  the new block is computed in `size_t`.
-/
def append
    (allocator : Allocator)
    (string suffix : KString) :
    Call (KString × Bool) := do
  let newSize := (string.size + suffix.size + 1) % 2 ^ 64
  let granted ← request allocator (.stringAppend newSize)
  if granted && newSize != 0 then
    let old := string.buffer.getD []
    let realloced :=
      old.take newSize ++
        List.replicate (newSize - old.length) 0
    let buffer ←
      copyBytes (some realloced) string.size suffix.buffer
        suffix.size
    let size := string.size + suffix.size
    let terminated :=
      if size = 0 then
        buffer
      else
        buffer.map fun block => block.set size 0
    pure
      ({ string with size := size, buffer := terminated }, true)
  else
    pure (string, false)

/- `KStringAppend`, which accepts NULL. -/
def appendOrNull
    (allocator : Allocator) :
    Option KString → Option KString →
      Call (Option KString × Bool)
| some string, some suffix => do
    let (string, appended) ← string.append allocator suffix
    pure (some string, appended)
| string, _ => pure (string, false)

/- The conversion of an `int` to `size_t`. -/
def sizeOfInt (n : Int32) : Nat :=
  (n.toInt % 2 ^ 64).toNat

/-
  What `vsnprintf` leaves of the text in a block: the bytes
  that fit before the terminator.
-/
def printed
    (size : Nat)
    (text : List UInt8) : List UInt8 :=
  if size = 0 then
    []
  else
    let written := text.take (size - 1) ++ [0]
    written ++ List.replicate (size - written.length) 0

/-
  `KStringNewWithFormatV`. `count` is the answer of the
  `vsnprintf` that measures the text.
-/
def newWithFormatV
    (allocator : Allocator)
    (count : Int32)
    (text : List UInt8) :
    Call (Option KString) := do
  match ← objectNew allocator .kString with
  | none => pure none
  | some address =>
      let size := sizeOfInt (count + 1)
      let granted ← request allocator (.stringFormat size)
      if granted then
        pure (some
          { address := address
            size := sizeOfInt count
            buffer := some (printed size text) })
      else
        KObject.release
          { address := address
            size := sizeOfInt count
            buffer := none : KString }
        pure none

/- `KStringGetHash`. -/
def getHash : Option KString → KHash
| none => 31
| some string => KHash.combine (KHash.create string.bytes) 31

/- `KStringIsEqual`. -/
def isEqual : Option KString → Option KString → Bool
| some lhs, some rhs =>
    if lhs.address = rhs.address then
      true
    else if lhs.size ≠ rhs.size then
      false
    else if lhs.size = 0 then
      true
    else
      lhs.bytes == rhs.bytes
| _, _ => false

end KString

end KDoth

------------------------------------------------------------
-- Equality
------------------------------------------------------------

namespace KDoth

namespace KString

/- Equal strings are the same object or have equal bytes. -/
theorem isEqual_iff
    (lhs rhs : KString) :
    isEqual (some lhs) (some rhs) = true ↔
      lhs.address = rhs.address ∨
        lhs.size = rhs.size ∧ lhs.bytes = rhs.bytes := by
  unfold isEqual
  by_cases hSame : lhs.address = rhs.address
  · simp [hSame]
  · by_cases hSize : lhs.size = rhs.size
    · by_cases hZero : rhs.size = 0
      · simp [hSize, hZero, bytes]
      · simp [hSame, hSize, hZero]
    · simp [hSame, hSize]

end KString

end KDoth

------------------------------------------------------------
-- Safe Use
------------------------------------------------------------

namespace KDoth

namespace KString

variable {allocator : Allocator} {A : Prop}

instance : SafeObject KString where
  WellBuilt string := string.buffer.isSome = true
  runs_retain _ _ _ := Runs.ofObjectRetain
  runs_release _ _ _ _ := Runs.ofObjectRelease (Runs.ret trivial)

theorem runs_copyBytes
    (block : List UInt8)
    (offset : Nat)
    {source : Option (List UInt8)}
    {count : Nat}
    (hSource : count = 0 ∨ source.isSome = true) :
    Runs allocator A
      (copyBytes (some block) offset source count)
      (fun r => r.isSome = true) := by
  unfold copyBytes
  by_cases hZero : count = 0
  · rw [if_pos hZero]
    exact Runs.ret rfl
  · rw [if_neg hZero]
    cases source with
    | none => simp [hZero] at hSource
    | some data => exact Runs.ret rfl

/-
  A new string has a buffer. Without one the copy would
  dereference NULL, unless there is nothing to copy.
-/
theorem runs_newWithData
    {data : Option (List UInt8)}
    {count : Nat}
    (hData : count = 0 ∨ data.isSome = true) :
    Runs allocator A (newWithData allocator data count)
      (fun r =>
        (r = none → ∃ n, allocator n = false) ∧
          ∀ string, r = some string →
            string.buffer.isSome = true) := by
  unfold newWithData
  refine Runs.bind (Runs.ofObjectNew rfl) ?_
  intro address hAddress
  cases address with
  | none => exact Runs.ret ⟨fun _ => hAddress rfl, by simp⟩
  | some address =>
      intro p hp
      simp only [Command.wp_bind, wp_request]
      cases hGranted : allocator p.requests.length with
      | true =>
          simp only [if_true, Option.isNone_some, Bool.and_false,
            Bool.false_eq_true, if_false, Command.wp_bind]
          have hClean :
              ¬ (p.requested
                  (.stringData count)).Refused allocator := by
            simp [hp, hGranted]
          refine
            Command.wp_mono
              (runs_copyBytes (List.replicate count 0) 0 hData
                _ hClean)
              ?_ (fun _ _ h => h)
          intro buffer q hBuffer
          refine ⟨hBuffer.1, by simp, ?_⟩
          intro string hEq
          cases hEq
          exact hBuffer.2
      | false =>
          cases count with
          | zero =>
              simp only [Bool.false_eq_true, if_false,
                Option.isNone_none, decide_true, Bool.and_self,
                if_true]
              simp only [KObject.release, wp_objectRelease,
                deInit, Command.wp_bind, Command.wp_pure]
              split <;>
                exact
                  ⟨by simp [hp, AllocationSite.fatal],
                    fun _ => ⟨_, hGranted⟩, by simp⟩
          | succ count =>
              simp [copyBytes, StopsAt, AllocationSite.fatal,
                hGranted]

/- Appending keeps a buffer, or leaves the string alone. -/
theorem runs_append
    {string suffix : KString}
    (hString : string.buffer.isSome = true)
    (hSuffix : suffix.buffer.isSome = true) :
    Runs allocator A (string.append allocator suffix)
      (fun r =>
        r.1.buffer.isSome = true ∧
          (r.2 = false → r.1 = string)) := by
  unfold append
  refine Runs.bind (Runs.ofRequest rfl) ?_
  intro granted _
  split
  · refine Runs.bind (runs_copyBytes _ _ (Or.inr hSuffix)) ?_
    intro buffer hBuffer
    refine Runs.ret ⟨?_, by simp⟩
    split
    · exact hBuffer
    · simpa using hBuffer
  · exact Runs.ret ⟨hString, fun _ => rfl⟩

end KString

end KDoth
