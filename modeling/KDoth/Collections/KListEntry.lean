import KDoth.Collections.KList
import KDoth.Runtime.Memory
import KDoth.Foundations.DoubleChain

/-
  Lists of `klist.c` as they lie in memory: nodes linked both
  ways, and a record with the first of them and their count.

  A loop over the nodes is given as many turns as the count
  says. One that needs more, and an access to a node that was
  freed or never allocated, is a fault.

  Key definitions include:
    * `KListEntry`
    * `NodeMemory`
    * `KListHead`
    * `KListHead.addObject`
    * `KListHead.removeObjectAtIndex`
    * `KListHead.getObjectAtIndex`
    * `KListHead.containsObject`
    * `KListHead.removeAllObjects`
    * `KListHead.deInit`
-/

------------------------------------------------------------
-- Nodes In Memory
------------------------------------------------------------

namespace KDoth

structure KListEntry (α : Type) where
  prev : Option Nat
  next : Option Nat
  item : Option α
deriving DecidableEq

/- The memory of the nodes of lists. -/
abbrev NodeMemory (α : Type) := Memory (KListEntry α)

/- A call on the nodes of lists. -/
abbrev NodeCall (α β : Type) :=
  MemoryCall (KListEntry α) β

/-
  `calloc` of a node, answered by an address or NULL. The
  node is zeroed.
-/
def callocEntry
    {α : Type}
    (answer : Option Nat) :
    NodeCall α (Option Nat) := do
  MemoryCall.requested .listEntry
  match answer with
  | none => pure none
  | some a =>
      MemoryCall.place a
        { prev := none, next := none, item := none }
      pure (some a)

end KDoth

------------------------------------------------------------
-- Loops Over The Nodes
------------------------------------------------------------

namespace KDoth

/- `struct KList`. The address is that of its own object. -/
structure KListHead where
  address : Nat
  root : Option Nat
  count : Nat
deriving DecidableEq

namespace KListHead

open MemoryCall

variable {α : Type}

/- The loop of `KListAddObject` to the last node. -/
def lastEntry : Nat → Nat → NodeCall α Nat
| 0, _ => throw (.stop .outOfFuel)
| turns + 1, entry => do
    let node ← load entry
    match node.next with
    | none => pure entry
    | some next => lastEntry turns next

/-
  The loop of `KListRemoveObjectAtIndex` and
  `KListGetObjectAtIndex`, up to the node at the index.
-/
def entryAt
    (index : Nat) :
    Nat → Nat → Option Nat → NodeCall α (Option Nat)
| _, _, none => pure none
| 0, _, some _ => throw (.stop .outOfFuel)
| turns + 1, i, some entry =>
    if i = index then pure (some entry)
    else do
      let node ← load entry
      entryAt index turns (i + 1) node.next

/- The loop of `KListContainsObject`. -/
def anyEntry
    [DecidableEq α]
    (object : α) :
    Nat → Option Nat → NodeCall α Bool
| _, none => pure false
| 0, some _ => throw (.stop .outOfFuel)
| turns + 1, some entry => do
    let node ← load entry
    if node.item = some object then pure true
    else anyEntry object turns node.next

/- The loop of `KListRemoveAllObjects`. -/
def releaseEntries
    [KObject α] :
    Nat → Option Nat → Nat → NodeCall α Nat
| _, none, removed => pure removed
| 0, some _, _ => throw (.stop .outOfFuel)
| turns + 1, some current, removed => do
    let node ← load current
    lift (KObject.releaseOrNull node.item)
    free current
    releaseEntries turns node.next (removed + 1)

end KListHead

end KDoth

------------------------------------------------------------
-- Calls
------------------------------------------------------------

namespace KDoth

namespace KListHead

open MemoryCall

variable {α : Type}

/- The record that `KListAlloc` returns is zeroed. -/
def alloc (address : Nat) : KListHead where
  address := address
  root := none
  count := 0

/- `KListAddObject` puts the new node behind the last one. -/
def linkEntry
    (list : KListHead)
    (newEntry : Nat) :
    NodeCall α KListHead :=
  match list.root with
  | none =>
      pure
        { list with
          root := some newEntry
          count := list.count + 1 }
  | some root => do
      let entry ← lastEntry (α := α) list.count root
      let node ← load entry
      store entry { node with next := some newEntry }
      let node ← load newEntry
      store newEntry { node with prev := some entry }
      pure { list with count := list.count + 1 }

/-
  `KListAddObject`, where `calloc` returns the answer given.
-/
def addObject
    [KObject α]
    (answer : Option Nat)
    (list : KListHead)
    (object : Option α) :
    NodeCall α (KListHead × Bool) := do
  match object with
  | none => pure (list, false)
  | some object =>
      match ← callocEntry (α := α) answer with
      | none => pure (list, false)
      | some newEntry =>
          lift (KObject.retain object)
          let node ← load newEntry
          store newEntry { node with item := some object }
          let list ← linkEntry (α := α) list newEntry
          pure (list, true)

/- `prev->next = next`, if there is a `prev`. -/
def setNext
    (prev next : Option Nat) :
    NodeCall α Unit :=
  match prev with
  | none => pure ()
  | some a => do
      let node ← load a
      store a { node with next := next }

/- `next->prev = prev`, if there is a `next`. -/
def setPrev
    (next prev : Option Nat) :
    NodeCall α Unit :=
  match next with
  | none => pure ()
  | some a => do
      let node ← load a
      store a { node with prev := prev }

/-
  What `KListRemoveObjectAtIndex` does at the node that has
  the index.
-/
def unlinkEntry
    (list : KListHead)
    (index entry : Nat) :
    NodeCall α (KListHead × Option α) := do
  let node ← load entry
  let prev := node.prev
  let next := node.next
  setNext (α := α) prev next
  setPrev (α := α) next prev
  let node ← load entry
  let root := if index = 0 then next else list.root
  free entry
  pure
    ({ list with root := root, count := list.count - 1 },
      node.item)

/- `KListRemoveObjectAtIndex` -/
def removeObjectAtIndex
    (list : KListHead)
    (index : Nat) :
    NodeCall α (KListHead × Option α) := do
  match ← entryAt (α := α) index list.count 0 list.root with
  | none => pure (list, none)
  | some entry => unlinkEntry list index entry

/- `KListGetObjectAtIndex` -/
def getObjectAtIndex
    (list : KListHead)
    (index : Nat) :
    NodeCall α (Option α) := do
  match ← entryAt (α := α) index list.count 0 list.root with
  | none => pure none
  | some entry =>
      let node ← load entry
      pure node.item

/- `KListContainsObject` -/
def containsObject
    [DecidableEq α]
    (list : KListHead)
    (object : Option α) :
    NodeCall α Bool :=
  match object with
  | none => pure false
  | some object => anyEntry object list.count list.root

/- `KListGetCount` -/
def getCount (list : KListHead) : Nat :=
  list.count

/- `KListRemoveAllObjects` -/
def removeAllObjects
    [KObject α]
    (list : KListHead) :
    NodeCall α (KListHead × Nat) := do
  let removed ← releaseEntries (α := α) list.count list.root 0
  lift (kAssert (removed == list.count))
  pure ({ list with root := none, count := 0 }, removed)

/- `KListDeInit` -/
def deInit
    [KObject α]
    (list : KListHead) :
    NodeCall α Unit := do
  let count := list.getCount
  let (_, removed) ← removeAllObjects (α := α) list
  lift (kAssert (count == removed))

end KListHead

end KDoth
