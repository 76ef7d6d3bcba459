import KDoth.Files.KFilePathHead

/-
  File handles of `kfile_handle.c`, up to the answer of the
  system to `open`. The system reads the path as a string that
  ends in a zero byte.

  Key definitions include:
    * `KFilePermission`
    * `KFileHandle`
    * `KFileHandle.readCString`
    * `KFileHandle.openPath`
    * `KFileHandle.new`
-/

------------------------------------------------------------
-- File Handles
------------------------------------------------------------

namespace KDoth

/- `KFilePermission` -/
inductive KFilePermission where
  | readOnly
  | writeOnly
  | readWrite
deriving DecidableEq, Repr

/- `struct KFileHandle` -/
structure KFileHandle where
  handle : Nat
  closed : Bool
deriving DecidableEq, Repr

/- `O_CLOEXEC`, and one of the ways to access a file. -/
structure OpenFlags where
  closeOnExec : Bool
  access : KFilePermission
deriving DecidableEq, Repr

/- A call of `open` with the path that the system reads. -/
structure OpenCall where
  text : List UInt8
  flags : OpenFlags
deriving DecidableEq, Repr

/-
  What the system answers: `open` is interrupted so many
  times before it returns a number or -1, and then there may
  be memory for the handle.
-/
structure OpenAnswers where
  interruptions : Nat
  handle : Option Nat
  allocated : Bool

namespace KFileHandle

open MemoryCall StringCall KStringHead KFilePathHead

/- The bytes in front of the first zero byte. -/
def readCString :
    List (Option UInt8) → StringCall (List UInt8)
| [] => throw .outOfBounds
| none :: _ => throw .uninitialized
| some byte :: rest =>
    if byte = 0 then pure []
    else do
      let bytes ← readCString rest
      pure (byte :: bytes)

/- The flags for a permission. -/
def openFlags (permission : KFilePermission) : OpenFlags where
  closeOnExec := true
  access := permission

/- One call of `open`. -/
def openOnce
    (string : Nat)
    (permission : KFilePermission) :
    StringCall OpenCall := do
  let data ← loadObject string
  let block ← loadBlock data.buffer
  let text ← readCString block.bytes
  pure { text := text, flags := openFlags permission }

/- `K_HANDLE_EINTR` makes the call again. -/
def openUninterrupted
    (string : Nat)
    (permission : KFilePermission) :
    Nat → StringCall (List OpenCall)
| 0 => do
    let call ← openOnce string permission
    pure [call]
| interruptions + 1 => do
    let call ← openOnce string permission
    let calls ←
      openUninterrupted string permission interruptions
    pure (call :: calls)

/- `KFilePathNewStringRepresentation`, not on Windows. -/
def newStringRepresentation
    (source : AddressSource)
    (path : Option KFilePathHead) :
    StringCall (Option Nat) :=
  newStringRepresentationWithSeparator source path
    KFilePath.slash

/-
  `KFileHandleNew` up to the answer of the system: the string
  of the path and the calls that were made.
-/
def openPath
    (source : AddressSource)
    (path : Option KFilePathHead)
    (permission : KFilePermission)
    (interruptions : Nat) :
    StringCall (Option (Nat × List OpenCall)) := do
  match path with
  | none => pure none
  | some path =>
      match ← newStringRepresentation source (some path) with
      | none => pure none
      | some string =>
          let calls ←
            openUninterrupted string permission interruptions
          pure (some (string, calls))

/- `KFileHandleNew` -/
def new
    (source : AddressSource)
    (path : Option KFilePathHead)
    (permission : KFilePermission)
    (answers : OpenAnswers) :
    StringCall (Option KFileHandle) := do
  match ←
      openPath source path permission answers.interruptions with
  | none => pure none
  | some (string, _) =>
      release string
      match answers.handle with
      | none => pure none
      | some handle =>
          if answers.allocated then
            pure (some { handle := handle, closed := false })
          else
            throw (.stop .nullDereference)

end KFileHandle

end KDoth
