import KDoth.Foundations.Command
import KDoth.Runtime.Process
import Mathlib.Logic.Function.Basic

/-
  The heap of objects that may hold each other in any way:
  `kobject.c`, `karray.c`, `klist.c` and `kautorelease.c` on
  one thread.

  The reference count of an object is the 32-bit word of its
  control block. A client's own class is an object whose
  deinitializer releases some fields. Deinitializers do not
  change containers. The allocation that stores the elements
  of an array belongs to it alone and is not an object here.
  Whether a request is granted is an argument of the call
  that makes it.

  Key definitions include:
    * `KObjectBody`
    * `Heap`
    * `Heap.objectNew`
    * `Heap.objectRetain`
    * `Heap.releaseObject`
    * `Heap.arrayAddObject`
    * `Heap.arrayRemoveObjectAtIndex`
    * `Heap.arrayRemoveAllObjects`
    * `Heap.listAddObject`
    * `Heap.listRemoveObjectAtIndex`
    * `Heap.listRemoveAllObjects`
    * `Heap.autoreleasePoolAddObject`
    * `Heap.autoreleaseMove`
    * `Heap.autoreleasePoolPop`
-/

------------------------------------------------------------
-- Objects
------------------------------------------------------------

namespace KDoth

/- What follows the control block, by class. -/
inductive KObjectBody where
  | object (fields : List KObjectRef)
  | array (items : List KObjectRef)
  | list (items : List KObjectRef)
deriving DecidableEq, Repr

/- The references that the deinitializer releases, in order. -/
def KObjectBody.references : KObjectBody → List KObjectRef
| .object fields => fields
| .array items => items
| .list items => items

/- An object with the count of its control block. -/
structure KControlBlock where
  refCount : UInt32
  body : KObjectBody
deriving DecidableEq, Repr

/- Why a call on the heap does not return. -/
inductive HeapStop where
  | useAfterFree
  | nullDereference
  | wrongClass
  | assertFailed
  | outOfFuel
deriving DecidableEq, Repr

/-
  `objects` are the live objects; an address that was freed
  or never allocated has none. `tPool` is the autorelease
  pool of the thread. `deInits` are the objects that were
  deinitialized, oldest first.
-/
structure Heap where
  objects : KObjectRef → Option KControlBlock
  nextAddress : Nat
  tPool : Option KObjectRef
  deInits : List KObjectRef

abbrev HeapCall (α : Type) := Command HeapStop Heap α

/- No object was allocated yet. -/
def Heap.initial : Heap where
  objects := fun _ => none
  nextAddress := 0
  tPool := none
  deInits := []

end KDoth

------------------------------------------------------------
-- Reading And Writing Objects
------------------------------------------------------------

namespace KDoth

namespace Heap

/- Put a block at an address, or free it. -/
def put
    (h : Heap)
    (o : KObjectRef)
    (block : Option KControlBlock) : Heap :=
  { h with objects := Function.update h.objects o block }

/- A new object with one reference. -/
def created (h : Heap) (body : KObjectBody) : Heap :=
  { h with
    objects :=
      Function.update h.objects ⟨h.nextAddress⟩
        (some { refCount := 1, body := body })
    nextAddress := h.nextAddress + 1 }

/- Note that an object is deinitialized. -/
def deinitialized (h : Heap) (o : KObjectRef) : Heap :=
  { h with deInits := h.deInits ++ [o] }

/- Access to a freed object is undefined. -/
def read (o : KObjectRef) : HeapCall KControlBlock := do
  let h ← get
  match h.objects o with
  | none => throw .useAfterFree
  | some block => pure block

/- Change what follows the control block. -/
def setBody
    (o : KObjectRef)
    (body : KObjectBody) : HeapCall Unit := do
  let block ← read o
  modify fun h => h.put o (some { block with body := body })

/- The elements of an array. -/
def arrayItems (array : KObjectRef) :
    HeapCall (List KObjectRef) := do
  let block ← read array
  match block.body with
  | .array items => pure items
  | _ => throw .wrongClass

/- The items of a list. -/
def listItems (list : KObjectRef) :
    HeapCall (List KObjectRef) := do
  let block ← read list
  match block.body with
  | .list items => pure items
  | _ => throw .wrongClass

end Heap

end KDoth

------------------------------------------------------------
-- Reference Counting
------------------------------------------------------------

namespace KDoth

namespace Heap

/- `KObjectNew`, NULL when the request is refused. -/
def objectNew
    (body : KObjectBody)
    (granted : Bool) :
    HeapCall (Option KObjectRef) := do
  if granted then
    let h ← get
    set (h.created body)
    pure (some ⟨h.nextAddress⟩)
  else
    pure none

/- `KObjectRetain`. -/
def objectRetain : Option KObjectRef → HeapCall Unit
| none => pure ()
| some o => do
    let block ← read o
    modify fun h =>
      h.put o (some { block with refCount := block.refCount + 1 })

/-
  `KObjectRelease` on an object that is not NULL, for
  deinitializers nested to a bounded depth.
-/
def releaseObject : Nat → KObjectRef → HeapCall Unit
| 0, o => do
    let block ← read o
    modify fun h =>
      h.put o (some { block with refCount := block.refCount - 1 })
    if block.refCount = 1 then
      throw .outOfFuel
    else
      pure ()
| depth + 1, o => do
    let block ← read o
    modify fun h =>
      h.put o (some { block with refCount := block.refCount - 1 })
    if block.refCount = 1 then
      modify fun h => h.deinitialized o
      forM block.body.references (releaseObject depth)
      modify fun h => h.put o none
    else
      pure ()

/-
  `KObjectRelease`. Every nested deinitializer is that of
  another object, so the depth is never used up.
-/
def objectRelease : Option KObjectRef → HeapCall Unit
| none => pure ()
| some o => do
    let h ← get
    releaseObject h.nextAddress o

end Heap

end KDoth

------------------------------------------------------------
-- Arrays And Lists
------------------------------------------------------------

namespace KDoth

namespace Heap

/-
  `KArrayNew`. Without an allocation for its elements the
  array is released, which dereferences the NULL allocation.
-/
def arrayNew
    (array items : Bool) :
    HeapCall (Option KObjectRef) := do
  match ← objectNew (.array []) array with
  | none => pure none
  | some o =>
      if items then
        pure (some o)
      else
        throw .nullDereference

/- `KArrayAddObject`. -/
def arrayAddObject
    (array object : Option KObjectRef)
    (granted : Bool) :
    HeapCall Bool := do
  match array, object with
  | some array, some object =>
      let items ← arrayItems array
      if granted then
        objectRetain (some object)
        setBody array (.array (items ++ [object]))
        pure true
      else
        pure false
  | _, _ => pure false

/-
  `KArrayRemoveObjectAtIndex`. The element is released while
  it is still in the array, which is read again afterwards.
-/
def arrayRemoveObjectAtIndex
    (array : Option KObjectRef)
    (index : Nat) :
    HeapCall Bool := do
  match array with
  | none => pure false
  | some array =>
      let items ← arrayItems array
      match items[index]? with
      | none => pure false
      | some item =>
          objectRelease (some item)
          let items ← arrayItems array
          setBody array (.array (items.eraseIdx index))
          pure true

/- `KArrayRemoveAllObjects`. -/
def arrayRemoveAllObjects
    (array : KObjectRef) :
    HeapCall Nat := do
  let items ← arrayItems array
  forM items (fun item => objectRelease (some item))
  let items ← arrayItems array
  setBody array (.array [])
  pure items.length

/- `KListNew`. -/
def listNew (granted : Bool) :
    HeapCall (Option KObjectRef) :=
  objectNew (.list []) granted

/- `KListAddObject`. -/
def listAddObject
    (list object : Option KObjectRef)
    (granted : Bool) :
    HeapCall Bool := do
  match list, object with
  | some list, some object =>
      let items ← listItems list
      if granted then
        objectRetain (some object)
        setBody list (.list (items ++ [object]))
        pure true
      else
        pure false
  | _, _ => pure false

/-
  `KListRemoveObjectAtIndex`. The reference of the list goes
  to the caller.
-/
def listRemoveObjectAtIndex
    (list : Option KObjectRef)
    (index : Nat) :
    HeapCall (Option KObjectRef) := do
  match list with
  | none => pure none
  | some list =>
      let items ← listItems list
      match items[index]? with
      | none => pure none
      | some item =>
          setBody list (.list (items.eraseIdx index))
          pure (some item)

/- `KListRemoveAllObjects`. -/
def listRemoveAllObjects
    (list : Option KObjectRef) :
    HeapCall Nat := do
  match list with
  | none => pure 0
  | some list =>
      let items ← listItems list
      forM items (fun item => objectRelease (some item))
      let left ← listItems list
      if items.length = left.length then
        setBody list (.list [])
        pure items.length
      else
        throw .assertFailed

end Heap

end KDoth

------------------------------------------------------------
-- The Autorelease Pool
------------------------------------------------------------

namespace KDoth

/- The answers to the requests of an addition to the pool. -/
structure PoolAnswers where
  array : Bool
  items : Bool
  growth : Bool
deriving DecidableEq, Repr

namespace Heap

/- `tPool`, which the first addition makes an array. -/
def autoreleasePool (answers : PoolAnswers) :
    HeapCall (Option KObjectRef) := do
  let h ← get
  match h.tPool with
  | some pool => pure (some pool)
  | none =>
      let pool ← arrayNew answers.array answers.items
      modify fun h => { h with tPool := pool }
      pure pool

/- `KAutoreleasePoolAddObject`. -/
def autoreleasePoolAddObject
    (object : Option KObjectRef)
    (answers : PoolAnswers) :
    HeapCall Bool := do
  match object with
  | none => pure false
  | some object =>
      let pool ← autoreleasePool answers
      arrayAddObject pool (some object) answers.growth

/- `KAutoreleasePoolPop`. -/
def autoreleasePoolPop : HeapCall Nat := do
  let h ← get
  match h.tPool with
  | none => pure 0
  | some pool => arrayRemoveAllObjects pool

/- `KAutoreleaseMove`. -/
def autoreleaseMove
    (object : Option KObjectRef)
    (answers : PoolAnswers) :
    HeapCall (Option KObjectRef) := do
  let added ← autoreleasePoolAddObject object answers
  objectRelease object
  if added then pure object else pure none

end Heap

end KDoth
