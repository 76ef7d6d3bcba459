import Mathlib.Init

/-
  The byte hash of `khash.c`, on 64-bit words.

  Key definitions include:
    * `KHash.combine`
    * `KHash.create`
-/

------------------------------------------------------------
-- Hashing
------------------------------------------------------------

namespace KDoth

abbrev KHash := UInt64

namespace KHash

/- `kOffsetBasis`. -/
def kOffsetBasis : KHash := 14695981039346656037

/- `kFNVPrime`. -/
def kFNVPrime : KHash := 1099511628211

/- `KHashCombine`. -/
def combine (a b : KHash) : KHash :=
  a ^^^
    (b + 0x9e3779b9 + a <<< (6 : KHash) + a >>> (2 : KHash))

/- One round of the loop of `KHashCreate`. -/
def step (hash : KHash) (byte : UInt8) : KHash :=
  (hash ^^^ byte.toUInt64) * kFNVPrime

/- `KHashCreate` on all the bytes of a buffer. -/
def create (data : List UInt8) : KHash :=
  data.foldl step kOffsetBasis

end KHash

end KDoth
