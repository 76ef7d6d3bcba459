import KDoth.Files.KFilePath
import KDoth.Strings.StringViews

/-
  File paths of `kfile_path.c` over the strings in memory. The
  list of a path is kept by its items, in order.

  A slice of a string has to lie inside the bytes of the
  string, even where its block is longer.

  Key definitions include:
    * `KFilePathHead`
    * `KFilePathHead.newWithString`
    * `KFilePathHead.addComponent`
    * `KFilePathHead.newStringRepresentationWithSeparator`
-/

------------------------------------------------------------
-- File Paths
------------------------------------------------------------

namespace KDoth

/- `struct KFilePath`. The items are addresses of strings. -/
structure KFilePathHead where
  components : List Nat
  isAbsolute : Bool
deriving DecidableEq, Repr

namespace KFilePathHead

open MemoryCall StringCall KStringHead

/- `K_ASSERT` -/
def kAssert (condition : Bool) : StringCall Unit :=
  lift (KDoth.kAssert condition)

/- `KFilePathAlloc`, which runs `KFilePathInit`. -/
def alloc
    (source : AddressSource) :
    StringCall (Option KFilePathHead) := do
  match ← ask source (.objectNew .kFilePath) with
  | none => pure none
  | some _ =>
      let list ← ask source (.objectNew .kList)
      kAssert list.isSome
      pure (some { components := [], isAbsolute := false })

/- `KListAddObject` on the list of a path. -/
def addObject
    (source : AddressSource)
    (components : List Nat)
    (obj : Option Nat) :
    StringCall (List Nat × Bool) := do
  match obj with
  | none => pure (components, false)
  | some obj =>
      match ← ask source .listEntry with
      | none => pure (components, false)
      | some _ =>
          retain obj
          pure (components ++ [obj], true)

/- `KFilePathIsAbsolute` -/
def isAbsoluteOrNull : Option KFilePathHead → Bool
| none => false
| some path => path.isAbsolute

/- `KFilePathCountComponents` -/
def countComponents : Option KFilePathHead → Nat
| none => 0
| some path => path.components.length

end KFilePathHead

end KDoth

------------------------------------------------------------
-- Parsing
------------------------------------------------------------

namespace KDoth

namespace KFilePathHead

open MemoryCall StringCall KStringHead

/- The read of `buffer[i]`. -/
def byteAt
    (string : KStringHead)
    (i : Nat) :
    StringCall UInt8 := do
  let data ← fetch (.buffer string.buffer i) 1
  let bytes ← defined data
  pure (bytes.headD 0)

/- The pointer to a slice of the string. -/
def slice
    (string : KStringHead)
    (start count : Nat) :
    StringCall DataPointer :=
  if start + count ≤ string.size then
    pure (.buffer string.buffer start)
  else throw .outOfBounds

/- Add `count` bytes from `start` as a component. -/
def addSlice
    (source : AddressSource)
    (string : KStringHead)
    (path : KFilePathHead)
    (start count : Nat) :
    StringCall KFilePathHead := do
  let data ← slice string start count
  let comp ← newWithData source data count
  let (components, added) ←
    addObject source path.components comp
  kAssert added
  releaseOrNull comp
  pure { path with components := components }

/-
  The body of the loop of `KFilePathNewWithString`, which
  carries the path and `start`.
-/
def scanByte
    (source : AddressSource)
    (string : KStringHead)
    (scanned : KFilePathHead × Nat)
    (i : Nat) :
    StringCall (KFilePathHead × Nat) := do
  let (path, start) := scanned
  let byte ← byteAt string i
  let path :=
    if i = 0 && KFilePath.isSeparator byte then
      { path with isAbsolute := true }
    else
      path
  if !KFilePath.isSeparator byte then
    pure (path, start)
  else
    let count := i - start
    if count > 0 then
      let path ← addSlice source string path start count
      pure (path, i + 1)
    else
      pure (path, i + 1)

/- `KFilePathNewWithString` -/
def newWithString
    (source : AddressSource)
    (str : Option Nat) :
    StringCall (Option KFilePathHead) := do
  match str with
  | none => pure none
  | some str =>
      match ← alloc source with
      | none => throw (.stop .assertFailed)
      | some path =>
          let string ← loadObject str
          let (path, start) ←
            (List.range string.size).foldlM
              (scanByte source string) (path, 0)
          if start < string.size then
            let path ←
              addSlice source string path start
                (string.size - start)
            pure (some path)
          else
            pure (some path)

end KFilePathHead

end KDoth

------------------------------------------------------------
-- Components
------------------------------------------------------------

namespace KDoth

namespace KFilePathHead

open MemoryCall StringCall KStringHead

/-
  The body of the loop of `KFilePathAddComponent`. Paths are
  referred to by their position among `paths`, so a path that
  is added to itself is read while it grows.
-/
def addItem
    (source : AddressSource)
    (path comp : Nat)
    (paths : List KFilePathHead)
    (i : Nat) :
    StringCall (List KFilePathHead) := do
  let str := paths[comp]?.bind fun comp => comp.components[i]?
  match paths[path]? with
  | none => throw (.stop .nullDereference)
  | some receiver =>
      let (components, added) ←
        addObject source receiver.components str
      kAssert added
      pure
        (paths.set path { receiver with components := components })

/-
  `KFilePathAddComponent`. The count is the one before the
  loop.
-/
def addComponent
    (source : AddressSource)
    (paths : List KFilePathHead) :
    Option Nat → Option Nat →
      StringCall (List KFilePathHead × Bool)
| none, _ => pure (paths, false)
| some _, none => pure (paths, true)
| some path, some comp =>
    if isAbsoluteOrNull paths[comp]? then
      pure (paths, false)
    else do
      let paths ←
        (List.range (countComponents paths[comp]?)).foldlM
          (addItem source path comp) paths
      pure (paths, true)

end KFilePathHead

end KDoth

------------------------------------------------------------
-- Rendering
------------------------------------------------------------

namespace KDoth

/- The format `"%c"` with a character. -/
def Formatting.char (byte : UInt8) : Formatting where
  count := 1
  text := [byte]
  counted _ := rfl

namespace KFilePathHead

open MemoryCall StringCall KStringHead

/-
  The body of the loop that renders a path: the separator
  follows every component but the last.
-/
def appendComponent
    (source : AddressSource)
    (path : KFilePathHead)
    (sep result : Option Nat)
    (i : Nat) :
    StringCall Unit := do
  let appended ← append source result path.components[i]?
  kAssert appended
  if i ≠ path.components.length - 1 then
    let appended ← append source result sep
    kAssert appended

/- The string that the components are appended to. -/
def representationRoot
    (source : AddressSource)
    (path : KFilePathHead)
    (sep : Option Nat) :
    StringCall (Option Nat) :=
  if path.isAbsolute then
    copy source sep
  else
    new source

/- `KFilePathNewStringRepresentationWithSeparator` -/
def newStringRepresentationWithSeparator
    (source : AddressSource)
    (path : Option KFilePathHead)
    (sepChar : UInt8) :
    StringCall (Option Nat) := do
  match path with
  | none => pure none
  | some path =>
      let sep ← newWithFormatV source (.char sepChar)
      let result ← representationRoot source path sep
      (List.range path.components.length).forM
        (appendComponent source path sep result)
      releaseOrNull sep
      pure result

end KFilePathHead

end KDoth
