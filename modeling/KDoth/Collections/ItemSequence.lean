import KDoth.Runtime.Memory

/-
  What lists and arrays are for: sequences of objects of the
  client, with the calls that change and read them.

  Key definitions include:
    * `KListCall`
    * `KArrayCall`
    * `ItemValue`
    * `ItemSequence.listMachine`
    * `ItemSequence.arrayMachine`

  Key theorems include:
    * `wp_releaseClients`
-/

------------------------------------------------------------
-- Calls And Their Values
------------------------------------------------------------

namespace KDoth

/-
  The calls on a list. A call that adds carries the answer
  of `calloc`, an address or NULL.
-/
inductive KListCall (α : Type) where
  | addObject (object : Option α) (answer : Option Nat)
  | removeObjectAtIndex (index : Nat)
  | removeAllObjects
  | getObjectAtIndex (index : Nat)
  | containsObject (object : Option α)
  | getCount
deriving DecidableEq

/- What a call returns. -/
inductive ItemValue (α : Type) where
  | flag (b : Bool)
  | item (object : Option α)
  | number (n : Nat)
deriving DecidableEq

/-
  The calls on an array. A call that adds carries the answer
  of `realloc`.
-/
inductive KArrayCall (α : Type) where
  | addObject (object : Option α) (answer : Option Nat)
  | removeObjectAtIndex (index : Nat)
  | removeAllObjects
  | getObjectAtIndex (index : Nat)
  | getLength
deriving DecidableEq

end KDoth

------------------------------------------------------------
-- Sequences
------------------------------------------------------------

namespace KDoth

namespace ItemSequence

/-
  What the calls mean for a sequence: adding appends, if
  there is memory, and removing takes out one item, if there
  is one at the index.
-/
def listCall
    (items : List KObjectRef) :
    KListCall KObjectRef →
      ItemValue KObjectRef × List KObjectRef
| .addObject (some object) (some _) =>
    (.flag true, items ++ [object])
| .addObject _ _ => (.flag false, items)
| .removeObjectAtIndex index =>
    (.item items[index]?, items.eraseIdx index)
| .removeAllObjects => (.number items.length, [])
| .getObjectAtIndex index => (.item items[index]?, items)
| .containsObject (some object) =>
    (.flag (decide (object ∈ items)), items)
| .containsObject none => (.flag false, items)
| .getCount => (.number items.length, items)

/- The sequence as a machine. Its calls never fail. -/
def listMachine :
    Machine (List KObjectRef) (KListCall KObjectRef)
      (Except Fault (ItemValue KObjectRef)) where
  step items c :=
    some (.ok (listCall items c).1, (listCall items c).2)

/-
  Removing from an array returns whether there was an item at
  the index.
-/
def arrayCall
    (items : List KObjectRef) :
    KArrayCall KObjectRef →
      ItemValue KObjectRef × List KObjectRef
| .addObject (some object) (some _) =>
    (.flag true, items ++ [object])
| .addObject _ _ => (.flag false, items)
| .removeObjectAtIndex index =>
    (.flag (decide (index < items.length)),
      items.eraseIdx index)
| .removeAllObjects => (.number items.length, [])
| .getObjectAtIndex index => (.item items[index]?, items)
| .getLength => (.number items.length, items)

/- The sequence as a machine for the calls on an array. -/
def arrayMachine :
    Machine (List KObjectRef) (KArrayCall KObjectRef)
      (Except Fault (ItemValue KObjectRef)) where
  step items c :=
    some (.ok (arrayCall items c).1, (arrayCall items c).2)

end ItemSequence

end KDoth

------------------------------------------------------------
-- Releasing Items
------------------------------------------------------------

namespace KDoth

/- Releasing objects of the client returns. -/
theorem wp_releaseClients
    (items : List KObjectRef)
    (p : Process) :
    Command.wp (forM items KObject.release)
      (fun _ _ => True) (fun _ _ => False) p := by
  induction items generalizing p with
  | nil => trivial
  | cons o items ih =>
      rw [List.forM_cons, Command.wp_bind]
      exact ih _

end KDoth
