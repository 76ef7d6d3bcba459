import KDoth.Collections.KList
import KDoth.Strings.KString

/-
  File paths of `kfile_path.c` over the process state.

  Key definitions include:
    * `KFilePath`
    * `KFilePath.newWithString`
    * `KFilePath.addComponent`
    * `KFilePath.newStringRepresentationWithSeparator`
-/

------------------------------------------------------------
-- File Paths
------------------------------------------------------------

namespace KDoth

structure KFilePath where
  address : Nat
  components : KList KString
  isAbsolute : Bool

namespace KFilePath

def slash : UInt8 := 47

def backslash : UInt8 := 92

/- The bytes at which `KFilePathNewWithString` splits. -/
def isSeparator (byte : UInt8) : Bool :=
  byte == slash || byte == backslash

/- `KFilePathDeInit`. -/
def deInit (path : KFilePath) : Call Unit :=
  KObject.release path.components

instance : KObject KFilePath where
  retain path := objectRetain path.address
  release path := objectRelease path.address path.deInit

/- `KFilePathAlloc`, which runs `KFilePathInit`. -/
def alloc
    (allocator : Allocator) :
    Call (Option KFilePath) := do
  match ← objectNew allocator .kFilePath with
  | none => pure none
  | some address =>
      match ← KList.new allocator with
      | none => throw .assertFailed
      | some components =>
          pure (some
            { address := address
              components := components
              isAbsolute := false })

/- `KFilePathIsAbsolute`. -/
def isAbsoluteOrNull : Option KFilePath → Bool
| none => false
| some path => path.isAbsolute

/- `KFilePathCountComponents`. -/
def countComponents : Option KFilePath → Nat
| none => 0
| some path => path.components.getCount

end KFilePath

end KDoth

------------------------------------------------------------
-- Parsing
------------------------------------------------------------

namespace KDoth

namespace KFilePath

/- The read of `buffer[i]`. -/
def byteAt
    (buffer : Option (List UInt8))
    (i : Nat) :
    Call UInt8 :=
  match buffer with
  | none => throw .nullDereference
  | some block => pure (block.getD i 0)

/- Add `count` bytes from `start` as a component. -/
def addSlice
    (allocator : Allocator)
    (buffer : Option (List UInt8))
    (path : KFilePath)
    (start count : Nat) :
    Call KFilePath := do
  let data := buffer.map fun block => block.drop start
  let comp ← KString.newWithData allocator data count
  let (components, added) ←
    path.components.addObject allocator comp
  kAssert added
  KObject.releaseOrNull comp
  pure { path with components := components }

/-
  The body of the loop of `KFilePathNewWithString`, which
  carries the path and `start`.
-/
def scanByte
    (allocator : Allocator)
    (buffer : Option (List UInt8))
    (scanned : KFilePath × Nat)
    (i : Nat) :
    Call (KFilePath × Nat) := do
  let (path, start) := scanned
  let byte ← byteAt buffer i
  let path :=
    if i = 0 && isSeparator byte then
      { path with isAbsolute := true }
    else
      path
  if !isSeparator byte then
    pure (path, start)
  else
    let count := i - start
    if count > 0 then
      let path ← addSlice allocator buffer path start count
      pure (path, i + 1)
    else
      pure (path, i + 1)

/- `KFilePathNewWithString`. -/
def newWithString
    (allocator : Allocator)
    (str : Option KString) :
    Call (Option KFilePath) := do
  match str with
  | none => pure none
  | some str =>
      match ← alloc allocator with
      | none => throw .assertFailed
      | some path =>
          let (path, start) ←
            (List.range str.size).foldlM
              (scanByte allocator str.buffer) (path, 0)
          if start < str.size then
            let path ←
              addSlice allocator str.buffer path start
                (str.size - start)
            pure (some path)
          else
            pure (some path)

end KFilePath

end KDoth

------------------------------------------------------------
-- Components
------------------------------------------------------------

namespace KDoth

namespace KFilePath

/-
  The body of the loop of `KFilePathAddComponent`. Paths are
  referred to by their position among `paths`, so a path that
  is added to itself is read while it grows.
-/
def addItem
    (allocator : Allocator)
    (path comp : Nat)
    (paths : List KFilePath)
    (i : Nat) :
    Call (List KFilePath) := do
  let str := paths[comp]?.bind fun comp =>
    comp.components.getObjectAtIndex i
  match paths[path]? with
  | none => throw .nullDereference
  | some receiver =>
      let (components, added) ←
        receiver.components.addObject allocator str
      kAssert added
      pure
        (paths.set path { receiver with components := components })

/-
  `KFilePathAddComponent`. The count is the one before the
  loop.
-/
def addComponent
    (allocator : Allocator)
    (paths : List KFilePath) :
    Option Nat → Option Nat →
      Call (List KFilePath × Bool)
| none, _ => pure (paths, false)
| some _, none => pure (paths, true)
| some path, some comp =>
    if isAbsoluteOrNull paths[comp]? then
      pure (paths, false)
    else do
      let paths ←
        (List.range (countComponents paths[comp]?)).foldlM
          (addItem allocator path comp) paths
      pure (paths, true)

end KFilePath

end KDoth

------------------------------------------------------------
-- Rendering
------------------------------------------------------------

namespace KDoth

namespace KFilePath

/-
  The body of the loop that renders a path: the separator
  follows every component but the last.
-/
def appendComponent
    (allocator : Allocator)
    (path : KFilePath)
    (sep : Option KString)
    (result : Option KString)
    (i : Nat) :
    Call (Option KString) := do
  let comp := path.components.getObjectAtIndex i
  let (result, appended) ←
    KString.appendOrNull allocator result comp
  kAssert appended
  if i ≠ path.components.getCount - 1 then
    let (result, appended) ←
      KString.appendOrNull allocator result sep
    kAssert appended
    pure result
  else
    pure result

/- The string that the components are appended to. -/
def representationRoot
    (allocator : Allocator)
    (path : KFilePath)
    (sep : Option KString) :
    Call (Option KString) :=
  if path.isAbsolute then
    KString.copy allocator sep
  else
    KString.new allocator

/- `KFilePathNewStringRepresentationWithSeparator`. -/
def newStringRepresentationWithSeparator
    (allocator : Allocator)
    (path : Option KFilePath)
    (sepChar : UInt8) :
    Call (Option KString) := do
  match path with
  | none => pure none
  | some path =>
      let sep ← KString.newWithFormatV allocator 1 [sepChar]
      let result ← representationRoot allocator path sep
      let result ←
        (List.range path.components.getCount).foldlM
          (appendComponent allocator path sep) result
      KObject.releaseOrNull sep
      pure result

end KFilePath

end KDoth
