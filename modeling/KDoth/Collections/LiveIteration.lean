import KDoth.Collections.KArraySequence
import KDoth.Collections.KListSequence

/-
  Iteration over lists and arrays while the callback makes
  calls on them. The callback may be any code: an iteration
  goes on step by step, with the calls that the callback makes
  and what it returns as steps.

  Key definitions include:
    * `IterationPhase`
    * `IterationStep`
    * `IterationValue`
    * `IterationValue.visits`
    * `ListIteration.step`
    * `ArrayIteration.step`
    * `ListCursor.step`
    * `ArrayCursor.step`
-/

------------------------------------------------------------
-- Steps And Their Values
------------------------------------------------------------

namespace KDoth

/-
  Where an iteration is: before the test of its loop, with
  what will be tested, in a call of the callback, or over.
-/
inductive IterationPhase (H I : Type) where
  | head (next : H)
  | inside (current : I)
  | ended
deriving DecidableEq, Repr

/-
  The loop tests whether there is another item and visits it,
  the callback makes a call on the collection, or it returns
  whether to go on.
-/
inductive IterationStep (C : Type) where
  | visit
  | call (c : C)
  | answer (goesOn : Bool)
deriving DecidableEq, Repr

/-
  What can be seen of a step: the arguments of the callback,
  the result of its call, that the loop goes on, or the count
  returned when there was no other item or when the callback
  returned false.
-/
inductive IterationValue (α : Type) where
  | visited (object : Option α) (index : Nat)
  | result (value : ItemValue α)
  | goesOn
  | finished (count : Nat)
  | stopped (count : Nat)
deriving DecidableEq

namespace IterationPhase

variable {H I C : Type}

/- The steps that may come next. -/
def Allows :
    IterationPhase H I → IterationStep C → Prop
| head _, .visit => True
| inside _, .call _ => True
| inside _, .answer _ => True
| _, _ => False

instance
    (phase : IterationPhase H I)
    (l : IterationStep C) :
    Decidable (phase.Allows l) := by
  cases phase <;> cases l <;> unfold Allows <;>
    infer_instance

end IterationPhase

namespace IterationValue

variable {α : Type}

/- The arguments of a call of the callback. -/
def visit :
    Except Fault (IterationValue α) →
      Option (Option α × Nat)
| .ok (.visited object index) => some (object, index)
| _ => none

/- The calls of the callback, in order. -/
def visits
    (values : List (Except Fault (IterationValue α))) :
    List (Option α × Nat) :=
  values.filterMap visit

/- The objects and the indices of the calls. -/
def objects
    (values : List (Except Fault (IterationValue α))) :
    List (Option α) :=
  (visits values).map Prod.fst

def indices
    (values : List (Except Fault (IterationValue α))) :
    List Nat :=
  (visits values).map Prod.snd

variable {v : Except Fault (IterationValue α)}

theorem visits_visited
    {object : Option α}
    {index : Nat}
    (values : List (Except Fault (IterationValue α)))
    (hVisit : visit v = some (object, index)) :
    visits (values ++ [v]) =
        visits values ++ [(object, index)] ∧
      objects (values ++ [v]) = objects values ++ [object] ∧
      indices (values ++ [v]) = indices values ++ [index] := by
  simp [visits, objects, indices, hVisit]

theorem visits_other
    (values : List (Except Fault (IterationValue α)))
    (hVisit : visit v = none) :
    visits (values ++ [v]) = visits values ∧
      objects (values ++ [v]) = objects values ∧
      indices (values ++ [v]) = indices values := by
  simp [visits, objects, indices, hVisit]

end IterationValue

end KDoth

------------------------------------------------------------
-- Iteration In Memory
------------------------------------------------------------

namespace KDoth

open MemoryCall

/-
  `KListIterate` under way: the list, the entry it is at and
  its count.
-/
structure ListIteration where
  list : KListHead
  phase : IterationPhase (Option Nat) Nat
  i : Nat
deriving DecidableEq

namespace ListIteration

/- The call begins, on a list and with a callback. -/
def start (list : KListHead) : ListIteration where
  list := list
  phase := .head list.root
  i := 0

/-
  A step of the loop. The next entry is read when the callback
  has returned, from the entry that was visited.
-/
def step
    (r : ListIteration) :
    IterationStep (KListCall KObjectRef) →
      NodeCall KObjectRef
        (ListIteration × IterationValue KObjectRef)
| .visit =>
    match r.phase with
    | .head (some entry) => do
        let node ← load entry
        let i := r.i + 1
        pure
          ({ r with phase := .inside entry, i := i },
            .visited node.item i)
    | _ => pure ({ r with phase := .ended }, .finished r.i)
| .call c => do
    let (list, value) ← r.list.call c
    pure ({ r with list := list }, .result value)
| .answer true =>
    match r.phase with
    | .inside entry => do
        let node ← load entry
        pure ({ r with phase := .head node.next }, .goesOn)
    | _ => pure (r, .goesOn)
| .answer false =>
    pure ({ r with phase := .ended }, .stopped r.i)

/- The iteration with the memory of the nodes. -/
def machine :
    Machine (ListIteration × NodeMemory KObjectRef)
      (IterationStep (KListCall KObjectRef))
      (Except Fault (IterationValue KObjectRef)) :=
  (MemoryCall.machine step).only fun r l =>
    r.1.phase.Allows l

end ListIteration

/-
  `KArrayIterate` under way: the array, the index it is at,
  the length it began with and its count.
-/
structure ArrayIteration where
  array : KArrayHead
  phase : IterationPhase Nat Nat
  count : Nat
  iterated : Nat
deriving DecidableEq

namespace ArrayIteration

def start (array : KArrayHead) : ArrayIteration where
  array := array
  phase := .head 0
  count := array.getLength
  iterated := 0

/-
  A step of the loop. The length is read once, and the object
  at an index when the index is visited.
-/
def step
    (r : ArrayIteration) :
    IterationStep (KArrayCall KObjectRef) →
      BlockCall KObjectRef
        (ArrayIteration × IterationValue KObjectRef)
| .visit =>
    match r.phase with
    | .head i =>
        if i < r.count then do
          let object ← r.array.getObjectAtIndex i
          pure
            ({ r with
                phase := .inside i
                iterated := r.iterated + 1 },
              .visited object i)
        else
          pure
            ({ r with phase := .ended }, .finished r.iterated)
    | _ =>
        pure ({ r with phase := .ended }, .finished r.iterated)
| .call c => do
    let (array, value) ← r.array.call c
    pure ({ r with array := array }, .result value)
| .answer true =>
    match r.phase with
    | .inside i =>
        pure ({ r with phase := .head (i + 1) }, .goesOn)
    | _ => pure (r, .goesOn)
| .answer false =>
    pure ({ r with phase := .ended }, .stopped r.iterated)

/- The iteration with the memory of the blocks. -/
def machine :
    Machine (ArrayIteration × Memory (Block KObjectRef))
      (IterationStep (KArrayCall KObjectRef))
      (Except Fault (IterationValue KObjectRef)) :=
  (MemoryCall.machine step).only fun r l =>
    r.1.phase.Allows l

end ArrayIteration

end KDoth

------------------------------------------------------------
-- Iteration Over A Sequence
------------------------------------------------------------

namespace KDoth

namespace KListCall

variable {α : Type}

/- Where a removal before it moves a position. -/
def shift
    (position : Nat) :
    KListCall α → Nat
| .removeObjectAtIndex index =>
    if index < position then position - 1 else position
| _ => position

/- The call does not remove the item at a position. -/
def Spares
    (position : Nat) :
    KListCall α → Prop
| .removeObjectAtIndex index => index ≠ position
| .removeAllObjects => False
| _ => True

instance
    (position : Nat)
    (c : KListCall α) :
    Decidable (c.Spares position) := by
  cases c <;> unfold Spares <;> infer_instance

/- The object that the call adds, if `calloc` grants it. -/
def added : KListCall α → List α
| .addObject (some object) (some _) => [object]
| _ => []

end KListCall

/-
  What iterating over a list means for its sequence: a cursor
  that stays on its item when others are added or removed.
-/
structure ListCursor where
  items : List KObjectRef
  phase : IterationPhase Nat Nat
  i : Nat
deriving DecidableEq

namespace ListCursor

def start (items : List KObjectRef) : ListCursor where
  items := items
  phase := .head 0
  i := 0

def next
    (t : ListCursor) :
    IterationStep (KListCall KObjectRef) →
      IterationValue KObjectRef × ListCursor
| .visit =>
    match t.phase with
    | .head position =>
        match t.items[position]? with
        | some object =>
            (.visited (some object) (t.i + 1),
              { t with
                phase := .inside position
                i := t.i + 1 })
        | none => (.finished t.i, { t with phase := .ended })
    | _ => (.finished t.i, { t with phase := .ended })
| .call c =>
    (.result (ItemSequence.listCall t.items c).1,
      { t with
        items := (ItemSequence.listCall t.items c).2
        phase :=
          match t.phase with
          | .inside position => .inside (c.shift position)
          | phase => phase })
| .answer true =>
    (.goesOn,
      { t with
        phase :=
          match t.phase with
          | .inside position => .head (position + 1)
          | phase => phase })
| .answer false => (.stopped t.i, { t with phase := .ended })

def machine :
    Machine ListCursor
      (IterationStep (KListCall KObjectRef))
      (Except Fault (IterationValue KObjectRef)) :=
  Machine.only
    { step := fun t l =>
        some (.ok (t.next l).1, (t.next l).2) }
    fun t l => t.phase.Allows l

/-
  The callback does not remove the item that it was called
  with.
-/
def Spares
    (t : ListCursor) :
    IterationStep (KListCall KObjectRef) → Prop
| .call c =>
    match t.phase with
    | .inside position => c.Spares position
    | _ => True
| _ => True

instance
    (t : ListCursor)
    (l : IterationStep (KListCall KObjectRef)) :
    Decidable (t.Spares l) := by
  rcases t with ⟨items, phase, i⟩
  cases l <;> cases phase <;> unfold Spares <;>
    infer_instance

def addedBy :
    IterationStep (KListCall KObjectRef) →
      List KObjectRef
| .call c => c.added
| _ => []

/- The objects that the callback adds. -/
def added
    (steps : List (IterationStep (KListCall KObjectRef))) :
    List KObjectRef :=
  steps.flatMap addedBy

end ListCursor

namespace KArrayCall

variable {α : Type}

/- The object that the call adds, if `realloc` grants it. -/
def added : KArrayCall α → List α
| .addObject (some object) (some _) => [object]
| _ => []

/- The call removes nothing. -/
def Keeps : KArrayCall α → Prop
| .removeObjectAtIndex _ => False
| .removeAllObjects => False
| _ => True

end KArrayCall

/-
  What iterating over an array means for its sequence: the
  indices below the first length are visited, with the objects
  that are there at the time, if any.
-/
structure ArrayCursor where
  items : List KObjectRef
  phase : IterationPhase Nat Nat
  count : Nat
  iterated : Nat
deriving DecidableEq

namespace ArrayCursor

def start (items : List KObjectRef) : ArrayCursor where
  items := items
  phase := .head 0
  count := items.length
  iterated := 0

def next
    (t : ArrayCursor) :
    IterationStep (KArrayCall KObjectRef) →
      IterationValue KObjectRef × ArrayCursor
| .visit =>
    match t.phase with
    | .head i =>
        if i < t.count then
          (.visited t.items[i]? i,
            { t with
              phase := .inside i
              iterated := t.iterated + 1 })
        else (.finished t.iterated, { t with phase := .ended })
    | _ => (.finished t.iterated, { t with phase := .ended })
| .call c =>
    (.result (ItemSequence.arrayCall t.items c).1,
      { t with items := (ItemSequence.arrayCall t.items c).2 })
| .answer true =>
    (.goesOn,
      { t with
        phase :=
          match t.phase with
          | .inside i => .head (i + 1)
          | phase => phase })
| .answer false =>
    (.stopped t.iterated, { t with phase := .ended })

def machine :
    Machine ArrayCursor
      (IterationStep (KArrayCall KObjectRef))
      (Except Fault (IterationValue KObjectRef)) :=
  Machine.only
    { step := fun t l =>
        some (.ok (t.next l).1, (t.next l).2) }
    fun t l => t.phase.Allows l

/- There is room for what the callback may add. -/
def Roomy
    (t : ArrayCursor) :
    IterationStep (KArrayCall KObjectRef) → Prop
| .call _ => t.items.length < 2 ^ 28
| _ => True

instance
    (t : ArrayCursor)
    (l : IterationStep (KArrayCall KObjectRef)) :
    Decidable (t.Roomy l) := by
  cases l <;> unfold Roomy <;> infer_instance

def addedBy :
    IterationStep (KArrayCall KObjectRef) →
      List KObjectRef
| .call c => c.added
| _ => []

/- The objects that the callback adds. -/
def added
    (steps : List (IterationStep (KArrayCall KObjectRef))) :
    List KObjectRef :=
  steps.flatMap addedBy

/- The callback removes nothing. -/
def Keeps : IterationStep (KArrayCall KObjectRef) → Prop
| .call c => c.Keeps
| _ => True

end ArrayCursor

end KDoth
