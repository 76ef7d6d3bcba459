import KDoth.Files.Closing
import KDoth.Foundations.RefGraph
import KDoth.Foundations.SlotTable
import KDoth.Objects.Heap

/-
  The file handles and mappings of a process, as
  `kfile_handle.c` and `kmapping.c` have them where the system
  is not Windows: the objects with their reference counts, the
  numbers of the open files and the pages of the address
  space. Other code of the process has numbers and pages too.

  A call on NULL does nothing and is left out.

  Key definitions include:
    * `FileObject`
    * `FileProcess`
    * `FileProcess.fileHandleNew`
    * `FileProcess.close`
    * `FileProcess.getSize`
    * `FileProcess.newMapping`
    * `FileProcess.mappingNew`
    * `FileProcess.deInit`
    * `FileProcess.Enabled`
    * `fileProcess`
-/

------------------------------------------------------------
-- Objects And Tables
------------------------------------------------------------

namespace KDoth

/- The flags of `KMapProtection`. -/
structure KMapProtection where
  none : Bool
  read : Bool
  write : Bool
  exec : Bool
deriving DecidableEq, Repr

/- A file with the protection its pages are mapped with. -/
structure MappedFile (File : Type) where
  file : File
  read : Bool
  write : Bool
  exec : Bool
deriving DecidableEq, Repr

/- `PROT_NONE` has no bit: that flag changes nothing. -/
def KMapProtection.apply
    {File : Type}
    (protections : KMapProtection)
    (file : File) : MappedFile File where
  file := file
  read := protections.read
  write := protections.write
  exec := protections.exec

/-
  `struct KFileHandle`, `struct __KFileMapping` and
  `struct KMapping`.
-/
inductive FileObject where
  | fileHandle (handle : KFileHandle)
  | fileMapping (mapping size : Nat)
  | mapping
      (mapping count : Nat)
      (userData : Option KObjectRef)
deriving DecidableEq, Repr

/- The references that an object holds. -/
def FileObject.references : FileObject → List KObjectRef
| .mapping _ _ userData => userData.toList
| _ => []

/-
  `held` counts the references of the code that uses the
  library, and `releasing` are the calls of `KObjectRelease`
  under way, in any order.

  The last members are not in the program: what a handle was
  opened on, what a file mapping and a mapping were made to
  show, the mappings made for a file, and whether a call to
  the system was made on what is not the object's own.
-/
structure FileProcess (File : Type) where
  live : Finset KObjectRef
  object : KObjectRef → FileObject
  refCount : KObjectRef → UInt32
  held : KObjectRef → Nat
  releasing : List KObjectRef
  descriptors : SlotTable Nat KObjectRef File
  pages : SlotTable Nat KObjectRef (MappedFile File)
  aborted : Bool
  opened : KObjectRef → File
  mapped : KObjectRef → MappedFile File
  ofFile : KObjectRef → Bool
  astray : Bool

/- The pages that `munmap` and `mmap` round a size up to. -/
def InPages
    (pageSize mapping size page : Nat) : Prop :=
  mapping / pageSize ≤ page ∧
    page < mapping / pageSize +
      (size + pageSize - 1) / pageSize

instance (pageSize mapping size : Nat) :
    DecidablePred (InPages pageSize mapping size) := by
  intro page
  unfold InPages
  infer_instance

namespace FileProcess

variable {File : Type}

/- `KObjectNew` of an object with the fields it is given. -/
def alloc
    (s : FileProcess File)
    (o : KObjectRef)
    (object : FileObject) : FileProcess File :=
  { s with
    live := insert o s.live
    object := Function.update s.object o object
    refCount := Function.update s.refCount o 1
    ofFile := Function.update s.ofFile o false }

/- `KObjectRetain` -/
def retain
    (s : FileProcess File)
    (o : KObjectRef) : FileProcess File :=
  { s with
    refCount :=
      Function.update s.refCount o (s.refCount o + 1) }

/- A reference is passed to the code that uses the library. -/
def hold
    (s : FileProcess File)
    (o : KObjectRef) : FileProcess File :=
  { s with held := Function.update s.held o (s.held o + 1) }

/- That code gives up a reference. -/
def unhold
    (s : FileProcess File)
    (o : KObjectRef) : FileProcess File :=
  { s with held := Function.update s.held o (s.held o - 1) }

/- `KObjectRelease` is called. -/
def startRelease
    (s : FileProcess File)
    (o : KObjectRef) : FileProcess File :=
  { s with releasing := o :: s.releasing }

/- A call to the system on a number that an object has. -/
def useNumber
    (s : FileProcess File)
    (o : KObjectRef)
    (number : Nat) : FileProcess File :=
  { s with
    astray :=
      s.astray || !decide (s.descriptors.BelongsTo number o) }

/- `abort`, or an access through NULL. -/
def abort (s : FileProcess File) : FileProcess File :=
  { s with aborted := true }

end FileProcess

end KDoth

------------------------------------------------------------
-- Handles
------------------------------------------------------------

namespace KDoth

namespace FileProcess

variable {File : Type}

/- The object of a file that was opened with a number. -/
def openHandle
    (s : FileProcess File)
    (o : KObjectRef)
    (number : Nat)
    (file : File) : FileProcess File :=
  { s.alloc o (.fileHandle ⟨number, false⟩) with
    descriptors :=
      s.descriptors.claim (· = number) ⟨some o, file⟩
    opened := Function.update s.opened o file }

/-
  `KFileHandleNew`, from the answer to `open` on. The object
  is written without a check.
-/
def fileHandleNew
    (s : FileProcess File)
    (answer : Option (Nat × File))
    (object : Option KObjectRef) :
    Option KObjectRef × FileProcess File :=
  match answer with
  | none => (none, s)
  | some (number, file) =>
      match object with
      | none => (none, s.abort)
      | some o => (some o, (s.openHandle o number file).hold o)

/- An open number is taken back, whatever the answer is. -/
def takeBack
    (s : FileProcess File)
    (o : KObjectRef)
    (number : Nat) : FileProcess File :=
  { s.useNumber o number with
    descriptors := s.descriptors.clear (· = number) }

/- `K_HANDLE_EINTR` calls `close` once for each answer. -/
def closeNumber
    (s : FileProcess File)
    (o : KObjectRef)
    (number : Nat) :
    List CloseAnswer → Bool × FileProcess File
| [] => (false, s)
| [answer] => (answer == .success, s.takeBack o number)
| _ :: answers =>
    (s.takeBack o number).closeNumber o number answers

/- The member `closed` of a handle is written. -/
def setClosed
    (s : FileProcess File)
    (o : KObjectRef)
    (number : Nat)
    (closed : Bool) : FileProcess File :=
  { s with
    object :=
      Function.update s.object o
        (.fileHandle ⟨number, closed⟩) }

/- `KFileHandleClose` -/
def close
    (s : FileProcess File)
    (o : KObjectRef)
    (answers : List CloseAnswer) : Bool × FileProcess File :=
  match s.object o with
  | .fileHandle handle =>
      if handle.closed then (true, s)
      else
        let r := s.closeNumber o handle.handle answers
        (r.1, r.2.setClosed o handle.handle r.1)
  | _ => (false, s)

/-
  `KFileHandleGetSize`, that may be given nowhere to put the
  size. The system answers `fstat` for the file that has the
  number.
-/
def getSize
    (s : FileProcess File)
    (o : KObjectRef)
    (sizeOut : Bool)
    (fstat : File → Option Nat) :
    Option Nat × FileProcess File :=
  match s.object o with
  | .fileHandle handle =>
      if handle.closed || !sizeOut then (none, s)
      else
        ((s.descriptors handle.handle).bind fun slot =>
            fstat slot.content,
          s.useNumber o handle.handle)
  | _ => (none, s)

end FileProcess

end KDoth

------------------------------------------------------------
-- Mappings
------------------------------------------------------------

namespace KDoth

namespace FileProcess

variable {File : Type}

/- `KMappingNew`, that holds its user data if there is any. -/
def mappingNew
    (s : FileProcess File)
    (buffer count : Nat)
    (userData : Option KObjectRef)
    (object : Option KObjectRef) :
    Option KObjectRef × FileProcess File :=
  match object with
  | none => (none, s)
  | some k =>
      let fields := FileObject.mapping buffer count userData
      match userData with
      | none => (some k, (s.alloc k fields).hold k)
      | some o => (some k, ((s.retain o).alloc k fields).hold k)

/- The object of pages that `mmap` returned. -/
def mapPages
    (pageSize : Nat)
    (s : FileProcess File)
    (m : KObjectRef)
    (mapping size : Nat)
    (contents : MappedFile File) : FileProcess File :=
  { s.alloc m (.fileMapping mapping size) with
    pages :=
      s.pages.claim (InPages pageSize mapping size)
        ⟨some m, contents⟩
    mapped := Function.update s.mapped m contents }

/- The mapping is one that was made for a file. -/
def forFile
    (s : FileProcess File)
    (k : KObjectRef)
    (contents : MappedFile File) : FileProcess File :=
  { s with
    ofFile := Function.update s.ofFile k true
    mapped := Function.update s.mapped k contents }

/-
  `KFileHandleNewMapping` from a successful `mmap` on, with
  what `KObjectNew` answers to it and to `KMappingNew`.
-/
def wrapMapping
    (pageSize : Nat)
    (s : FileProcess File)
    (mapping size : Nat)
    (contents : MappedFile File)
    (fileMapping object : Option KObjectRef) :
    Option KObjectRef × FileProcess File :=
  match fileMapping with
  | none => (none, s.abort)
  | some m =>
      let s := s.mapPages pageSize m mapping size contents
      match s.mappingNew mapping size (some m) object with
      | (none, s) => (none, s.startRelease m)
      | (some k, s) =>
          (some k, (s.forFile k contents).startRelease m)

/-
  `KFileHandleNewMapping`. The system answers `mmap` with a
  page, or with `MAP_FAILED`.
-/
def newMapping
    (pageSize : Nat)
    (s : FileProcess File)
    (o : KObjectRef)
    (size : Nat)
    (protections : KMapProtection)
    (answer : Option Nat)
    (fileMapping object : Option KObjectRef) :
    Option KObjectRef × FileProcess File :=
  match s.object o with
  | .fileHandle handle =>
      if handle.closed then (none, s)
      else
        let s := s.useNumber o handle.handle
        match answer, s.descriptors handle.handle with
        | some page, some slot =>
            s.wrapMapping pageSize (page * pageSize) size
              (protections.apply slot.content)
              fileMapping object
        | _, _ => (none, s)
  | _ => (none, s)

/- `KMappingGetUserData` -/
def getUserData
    (s : FileProcess File)
    (k : KObjectRef) : Option KObjectRef :=
  match s.object k with
  | .mapping _ _ userData => userData
  | _ => none

/- The code retains what `KMappingGetUserData` returns. -/
def retainUserData
    (s : FileProcess File)
    (k : KObjectRef) : FileProcess File :=
  match s.getUserData k with
  | none => s
  | some o => (s.retain o).hold o

/- `KMappingGetBuffer` -/
def getBuffer
    (s : FileProcess File)
    (k : KObjectRef) : Option Nat :=
  match s.object k with
  | .mapping mapping _ _ => some mapping
  | _ => none

/- `KMappingGetSize` -/
def getMappingSize
    (s : FileProcess File)
    (k : KObjectRef) : Nat :=
  match s.object k with
  | .mapping _ count _ => count
  | _ => 0

end FileProcess

end KDoth

------------------------------------------------------------
-- Releases
------------------------------------------------------------

namespace KDoth

namespace FileProcess

variable {File : Type}

/- `munmap`. Its answer is not read. -/
def unmapPages
    (pageSize : Nat)
    (s : FileProcess File)
    (o : KObjectRef)
    (mapping size : Nat) : FileProcess File :=
  let first := mapping / pageSize
  let number := (size + pageSize - 1) / pageSize
  { s with
    pages := s.pages.clear (InPages pageSize mapping size)
    astray :=
      s.astray ||
        !(List.range' first number).all fun page =>
          decide (s.pages.BelongsTo page o) }

/-
  `KFileHandleDeInit`, `__KFileMappingDeInit` and
  `KMappingDeInit`.
-/
def deInit
    (pageSize : Nat)
    (s : FileProcess File)
    (o : KObjectRef)
    (answers : List CloseAnswer) : FileProcess File :=
  match s.object o with
  | .fileHandle _ =>
      match s.close o answers with
      | (true, s) => s
      | (false, s) => s.abort
  | .fileMapping mapping size =>
      s.unmapPages pageSize o mapping size
  | .mapping _ _ none => s
  | .mapping _ _ (some userData) => s.startRelease userData

/- `free` -/
def free
    (s : FileProcess File)
    (o : KObjectRef) : FileProcess File :=
  { s with live := s.live.erase o }

/- A call of `KObjectRelease` that was made goes on. -/
def proceed
    (pageSize : Nat)
    (s : FileProcess File)
    (o : KObjectRef)
    (answers : List CloseAnswer) : FileProcess File :=
  let last := s.refCount o == 1
  let s :=
    { s with
      releasing := s.releasing.erase o
      refCount :=
        Function.update s.refCount o (s.refCount o - 1) }
  if last then (s.deInit pageSize o answers).free o
  else s

end FileProcess

end KDoth

------------------------------------------------------------
-- Steps
------------------------------------------------------------

namespace KDoth

/-
  The calls with what the system and `KObjectNew` answer, and
  what other code of the process does.
-/
inductive FileStep (File : Type) where
  | fileHandleNew
      (answer : Option (Nat × File))
      (object : Option KObjectRef)
  | close (o : KObjectRef) (answers : List CloseAnswer)
  | getSize
      (o : KObjectRef)
      (sizeOut : Bool)
      (fstat : File → Option Nat)
  | newMapping
      (o : KObjectRef)
      (size : Nat)
      (protections : KMapProtection)
      (answer : Option Nat)
      (fileMapping object : Option KObjectRef)
  | mappingNew
      (buffer count : Nat)
      (userData object : Option KObjectRef)
  | retain (o : KObjectRef)
  | retainUserData (k : KObjectRef)
  | release (o : KObjectRef)
  | proceed (o : KObjectRef) (answers : List CloseAnswer)
  | otherOpens (number : Nat) (file : File)
  | otherCloses (number : Nat)
  | otherMaps (page : Nat) (contents : MappedFile File)
  | otherUnmaps (page : Nat)

namespace FileProcess

variable {File : Type}

/- The file handle that an object is. -/
def handleOf
    (s : FileProcess File)
    (o : KObjectRef) : Option KFileHandle :=
  match s.object o with
  | .fileHandle handle => some handle
  | _ => none

/-
  The answers to the calls of one `K_HANDLE_EINTR`: the last
  is not `EINTR`, and `EBADF` is for a number not in use.
-/
def Answers (inUse : Bool) : List CloseAnswer → Prop
| [] => False
| [answer] =>
    answer ≠ .interrupted ∧
      (answer = .notOpen ↔ inUse = false)
| answer :: answers =>
    answer = .interrupted ∧ inUse = true ∧
      Answers false answers

instance decidableAnswers :
    ∀ inUse answers, Decidable (Answers inUse answers)
| _, [] => isFalse id
| inUse, [answer] =>
    inferInstanceAs
      (Decidable
        (answer ≠ .interrupted ∧
          (answer = .notOpen ↔ inUse = false)))
| inUse, answer :: next :: answers =>
    have := decidableAnswers false (next :: answers)
    inferInstanceAs
      (Decidable
        (answer = .interrupted ∧ inUse = true ∧
          Answers false (next :: answers)))

/- The answers of the system to a call of `close`. -/
def CloseAnswers
    (s : FileProcess File)
    (o : KObjectRef)
    (answers : List CloseAnswer) : Prop :=
  match s.handleOf o with
  | none => True
  | some handle =>
      handle.closed = true ∨
        Answers (s.descriptors handle.handle).isSome answers

instance
    (s : FileProcess File)
    (o : KObjectRef)
    (answers : List CloseAnswer) :
    Decidable (s.CloseAnswers o answers) := by
  unfold CloseAnswers
  split <;> infer_instance

/- `mmap` returns pages that are not in use. -/
def MmapAnswers
    (pageSize : Nat)
    (s : FileProcess File)
    (size : Nat) : Option Nat → Prop
| none => True
| some page =>
    0 < size ∧
      ∀ i < (size + pageSize - 1) / pageSize,
        (s.pages (page + i)).isNone

instance
    (pageSize : Nat)
    (s : FileProcess File)
    (size : Nat)
    (answer : Option Nat) :
    Decidable (s.MmapAnswers pageSize size answer) := by
  unfold MmapAnswers
  split <;> infer_instance

/- The answer of `KObjectNew` is no object in use. -/
def New
    (s : FileProcess File)
    (object : Option KObjectRef) : Prop :=
  ∀ o ∈ object, o ∉ s.live

instance
    (s : FileProcess File)
    (object : Option KObjectRef) :
    Decidable (s.New object) := by
  unfold New
  infer_instance

/-
  A call is made with references that the code holds, and the
  system gives out what is not in use.
-/
def Enabled
    (pageSize : Nat)
    (s : FileProcess File) :
    FileStep File → Prop
| .fileHandleNew answer object =>
    s.New object ∧
      ∀ a ∈ answer, (s.descriptors a.1).isNone
| .close o answers =>
    0 < s.held o ∧ (s.handleOf o).isSome ∧
      s.CloseAnswers o answers
| .getSize o _ _ => 0 < s.held o ∧ (s.handleOf o).isSome
| .newMapping o size _ answer fileMapping object =>
    0 < s.held o ∧ (s.handleOf o).isSome ∧
      s.MmapAnswers pageSize size answer ∧
        s.New fileMapping ∧ s.New object ∧
          ∀ m ∈ fileMapping, m ∉ object
| .mappingNew _ _ userData object =>
    s.New object ∧ ∀ o ∈ userData, 0 < s.held o
| .retain o => 0 < s.held o
| .retainUserData k =>
    0 < s.held k ∧ (s.getUserData k).isSome
| .release o => 0 < s.held o
| .proceed o answers =>
    o ∈ s.releasing ∧
      (s.refCount o = 1 → s.CloseAnswers o answers)
| .otherOpens number _ => (s.descriptors number).isNone
| .otherCloses number => s.descriptors.Unowned number
| .otherMaps page _ => (s.pages page).isNone
| .otherUnmaps page => s.pages.Unowned page

instance
    (pageSize : Nat)
    (s : FileProcess File)
    (l : FileStep File) :
    Decidable (s.Enabled pageSize l) := by
  cases l <;> unfold Enabled <;> infer_instance

/- The state after a step. -/
def next
    (pageSize : Nat)
    (s : FileProcess File) :
    FileStep File → FileProcess File
| .fileHandleNew answer object =>
    (s.fileHandleNew answer object).2
| .close o answers => (s.close o answers).2
| .getSize o sizeOut fstat => (s.getSize o sizeOut fstat).2
| .newMapping o size protections answer fileMapping object =>
    (s.newMapping pageSize o size protections answer
      fileMapping object).2
| .mappingNew buffer count userData object =>
    (s.mappingNew buffer count userData object).2
| .retain o => (s.retain o).hold o
| .retainUserData k => s.retainUserData k
| .release o => (s.unhold o).startRelease o
| .proceed o answers => s.proceed pageSize o answers
| .otherOpens number file =>
    { s with
      descriptors :=
        s.descriptors.claim (· = number) ⟨none, file⟩ }
| .otherCloses number =>
    { s with
      descriptors := s.descriptors.clear (· = number) }
| .otherMaps page contents =>
    { s with
      pages := s.pages.claim (· = page) ⟨none, contents⟩ }
| .otherUnmaps page =>
    { s with pages := s.pages.clear (· = page) }

/- A process in which no call was made. -/
def start (file : File) : FileProcess File where
  live := ∅
  object := fun _ => .fileMapping 0 0
  refCount := fun _ => 0
  held := fun _ => 0
  releasing := []
  descriptors := fun _ => none
  pages := fun _ => none
  aborted := false
  opened := fun _ => file
  mapped := fun _ => ⟨file, false, false, false⟩
  ofFile := fun _ => false
  astray := false

/- Nothing happens any more once the process has aborted. -/
def step
    (pageSize : Nat)
    (s : FileProcess File)
    (l : FileStep File) : Option (FileProcess File) :=
  if s.aborted = false ∧ s.Enabled pageSize l then
    some (s.next pageSize l)
  else none

end FileProcess

namespace FileStep

variable {File : Type}

/-
  A handle is closed with the answer 0. The last release of a
  handle may get an error, on which the process aborts.
-/
def Orderly : FileStep File → Prop
| .close _ answers => answers = [.success]
| .proceed _ answers => answers.length = 1
| _ => True

instance (l : FileStep File) :
    Decidable l.Orderly := by
  cases l <;> unfold Orderly <;> infer_instance

/- A step of code that uses the library. -/
def Ours : FileStep File → Prop
| .otherOpens _ _ => False
| .otherCloses _ => False
| .otherMaps _ _ => False
| .otherUnmaps _ => False
| _ => True

instance (l : FileStep File) :
    Decidable l.Ours := by
  cases l <;> unfold Ours <;> infer_instance

end FileStep

def fileProcess
    (pageSize : Nat)
    (File : Type) :
    TransitionSystem (FileProcess File) (FileStep File) where
  Init s := ∃ file, s = .start file
  step := FileProcess.step pageSize

end KDoth
