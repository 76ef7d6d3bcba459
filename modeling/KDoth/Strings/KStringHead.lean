import KDoth.Strings.KString
import KDoth.Strings.StringMemory

/-
  Strings of `kstring.c` as they lie in memory. A string is
  named by the address of its object, so that a string can be
  appended to itself.

  Key definitions include:
    * `KStringHead.newWithData`
    * `KStringHead.copy`
    * `KStringHead.append`
    * `Formatting`
    * `KStringHead.newWithFormatV`
    * `KStringHead.getHash`
    * `KStringHead.isEqual`
-/

------------------------------------------------------------
-- References
------------------------------------------------------------

namespace KDoth

namespace KStringHead

open MemoryCall StringCall

/- `KStringRetain` -/
def retain (str : Nat) : StringCall Unit := do
  let string ← loadObject str
  storeObject str
    { string with refCount := string.refCount + 1 }

/- `KStringRelease`, which may run `KStringDeInit`. -/
def release (str : Nat) : StringCall Unit := do
  let string ← loadObject str
  storeObject str
    { string with refCount := string.refCount - 1 }
  if string.refCount = 1 then
    freeBlock string.buffer
    free str

def releaseOrNull : Option Nat → StringCall Unit
| none => pure ()
| some str => release str

end KStringHead

end KDoth

------------------------------------------------------------
-- Strings
------------------------------------------------------------

namespace KDoth

namespace KStringHead

open MemoryCall StringCall

/- `str->size = size` -/
def setSize (str size : Nat) : StringCall Unit := do
  let string ← loadObject str
  storeObject str { string with size := size }

/- `str->buffer = buffer` -/
def setBuffer
    (str : Nat)
    (buffer : Option Nat) :
    StringCall Unit := do
  let string ← loadObject str
  storeObject str { string with buffer := buffer }

/-
  `KStringNewWithData`. A buffer that could not be allocated
  is only noticed when no byte was asked for.
-/
def newWithData
    (source : AddressSource)
    (data : DataPointer)
    (count : Nat) :
    StringCall (Option Nat) := do
  match ← StringCall.objectNew source with
  | none => pure none
  | some str =>
      setSize str count
      let buffer ← malloc source (.stringData count) count
      setBuffer str buffer
      if count = 0 && buffer.isNone then
        release str
        pure none
      else
        copyBytes buffer 0 data count
        pure (some str)

/- `KStringNew` -/
def new (source : AddressSource) : StringCall (Option Nat) :=
  newWithData source .null 0

/- `KStringCopy` -/
def copy
    (source : AddressSource)
    (str : Option Nat) :
    StringCall (Option Nat) := do
  match str with
  | none => pure none
  | some str =>
      let string ← loadObject str
      newWithData source (.buffer string.buffer 0) string.size

/-
  `KStringAppend`. The suffix is read anew after the buffer
  of the string was moved: it may be the string.
-/
def append
    (source : AddressSource)
    (str suffix : Option Nat) :
    StringCall Bool := do
  match str, suffix with
  | some str, some suffix =>
      let string ← loadObject str
      let tail ← loadObject suffix
      let newSize := (string.size + tail.size + 1) % 2 ^ 64
      let realloced ←
        realloc source (.stringAppend newSize) string.buffer
          newSize
      match realloced with
      | none => pure false
      | some _ =>
          setBuffer str realloced
          let string ← loadObject str
          let tail ← loadObject suffix
          copyBytes string.buffer string.size
            (.buffer tail.buffer 0) tail.size
          setSize str ((string.size + tail.size) % 2 ^ 64)
          let string ← loadObject str
          if string.size ≠ 0 then
            write string.buffer string.size [some 0]
          pure true
  | _, _ => pure false

end KStringHead

end KDoth

------------------------------------------------------------
-- Formatting
------------------------------------------------------------

namespace KDoth

/-
  A format with its arguments: what `vsnprintf` answers, and
  the text that it prints. After an error it may have printed
  anything.
-/
structure Formatting where
  count : Int32
  text : List UInt8
  counted : 0 ≤ count.toInt → (text.length : Int) = count.toInt

namespace KStringHead

open MemoryCall StringCall

/-
  `vsnprintf` into a block of a given size: the bytes that
  fit in front of the terminator.
-/
def vsnprintf
    (buffer : Option Nat)
    (size : Nat)
    (format : Formatting) :
    StringCall Unit :=
  if size = 0 then pure ()
  else
    write buffer 0
      ((format.text.take (size - 1) ++ [0]).map some)

/-
  `KStringNewWithFormatV`. The sum in the size of the block
  is one of type `int`.
-/
def newWithFormatV
    (source : AddressSource)
    (format : Formatting) :
    StringCall (Option Nat) := do
  match ← StringCall.objectNew source with
  | none => pure none
  | some str =>
      let size := KString.sizeOfInt (format.count + 1)
      let buffer ← malloc source (.stringFormat size) size
      setBuffer str buffer
      setSize str (KString.sizeOfInt format.count)
      if buffer.isSome then
        vsnprintf buffer size format
      if buffer.isNone then
        release str
        pure none
      else
        pure (some str)

end KStringHead

end KDoth

------------------------------------------------------------
-- Comparison
------------------------------------------------------------

namespace KDoth

namespace KStringHead

open MemoryCall StringCall

/- The values of the first bytes behind a pointer. -/
def readBytes
    (buffer : Option Nat)
    (count : Nat) :
    StringCall (List UInt8) :=
  if count = 0 then pure []
  else do
    let data ← fetch (.buffer buffer 0) count
    defined data

/- `KStringGetHash` -/
def getHash (str : Option Nat) : StringCall KHash := do
  match str with
  | none => pure 31
  | some str =>
      let string ← loadObject str
      let bytes ← readBytes string.buffer string.size
      pure (KHash.combine (KHash.create bytes) 31)

/- `KStringIsEqual` -/
def isEqual (lhs rhs : Option Nat) : StringCall Bool := do
  match lhs, rhs with
  | some lhs, some rhs =>
      if lhs = rhs then pure true
      else
        let left ← loadObject lhs
        let right ← loadObject rhs
        if left.size ≠ right.size then pure false
        else if left.size = 0 then pure true
        else
          let leftBytes ← readBytes left.buffer left.size
          let rightBytes ← readBytes right.buffer left.size
          pure (leftBytes == rightBytes)
  | _, _ => pure false

end KStringHead

end KDoth
