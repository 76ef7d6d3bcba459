import KDoth.Collections.KArrayBlock
import KDoth.Foundations.TransitionSystem

/-
  `KAutoreleasePoolPop` while the deinitializers that it runs
  add to the pool it walks. The loop of
  `KArrayRemoveAllObjects` fetches the buffer once and reads
  the length on every turn.

  Key definitions include:
    * `autoreleasePoolAddObject`
    * `AutoreleasePop`
    * `AutoreleasePop.proceed`
    * `AutoreleasePop.step`
    * `AutoreleasePop.Starts`
    * `AutoreleasePop.PopsOnce`
    * `AutoreleasePop.Spares`
-/

------------------------------------------------------------
-- The Pool
------------------------------------------------------------

namespace KDoth

/-
  `KAutoreleasePoolAddObject`, where `KArrayNew` and `realloc`
  are answered so.
-/
def autoreleasePoolAddObject
    (created : Option KArrayHead)
    (answer : Option Nat)
    (tPool : Option KArrayHead)
    (object : Option KObjectRef) :
    BlockCall KObjectRef (Option KArrayHead × Bool) :=
  match object with
  | none => pure (tPool, false)
  | some object =>
      match tPool.or created with
      | none => pure (none, false)
      | some array => do
          let (array, added) ←
            array.addObject answer (some object)
          pure (some array, added)

/- How `realloc` answers a request for bytes. -/
inductive ReallocAnswer where
  | refused
  | inPlace
  | moved
deriving DecidableEq, Repr

/- Where `KAutoreleasePoolPop` is. -/
inductive PopPhase where
  /- Before the call. -/
  | idle
  /- At the head of the loop. -/
  | walking (i : Nat)
  /-
    In the deinitializer of an object, which the release of
    a slot runs. The outer ones wait for it to return.
  -/
  | releasing
      (i : Nat)
      (running : KObjectRef)
      (outer : List KObjectRef)
  | returned (removed : Nat)
  | faulted (fault : Fault)
deriving DecidableEq, Repr

/-
  The state of a pop. `items` is the buffer that the loop
  fetched. `nextAddress` and the addresses above it were
  never returned by the allocator. The library counts its
  references to an object in the process, and the client's
  are counted here. `released` are the objects that the loop
  released and `added` those that were added meanwhile,
  oldest first.
-/
structure AutoreleasePop where
  phase : PopPhase
  memory : Memory (Block KObjectRef)
  tPool : Option KArrayHead
  items : Option Nat
  clientReferences : KObjectRef → Int
  nextAddress : Nat
  released : List KObjectRef
  added : List KObjectRef

/-
  The pop goes on, or the running deinitializer calls
  `KAutoreleasePoolAddObject`, `KAutoreleaseMove` or
  `KObjectRelease`.
-/
inductive PopStep where
  | proceed
  | add (object : Option KObjectRef) (answer : ReallocAnswer)
  | move (object : Option KObjectRef) (answer : ReallocAnswer)
  | release (object : Option KObjectRef)
deriving DecidableEq, Repr

/- Not a call by a deinitializer. -/
def PopStep.isOwn : PopStep → Bool
| .proceed => true
| .add _ _ => false
| .move _ _ => false
| .release _ => false

/- The slot that the loop reads next. -/
def PopPhase.next : PopPhase → Nat
| .idle => 0
| .walking i => i
| .releasing i _ _ => i + 1
| .returned removed => removed
| .faulted _ => 0

namespace AutoreleasePop

open BlockCall MemoryCall

/- `KArrayGetLength` of the pool. -/
def length (s : AutoreleasePop) : Nat :=
  match s.tPool with
  | none => 0
  | some array => array.getLength

/- `KObjectGetRetainCount` -/
def refCount (s : AutoreleasePop) (o : KObjectRef) : Int :=
  s.clientReferences o + s.memory.process.references o

/-
  What `realloc` returns. A block that moves gets an address
  that no block had before.
-/
def address
    (s : AutoreleasePop) : ReallocAnswer → Option Nat
| .refused => none
| .inPlace => s.tPool.bind (fun array => array.items.buffer)
| .moved => some s.nextAddress

/-
  An addition by a deinitializer. The pool that is walked
  exists, so no other is created.
-/
def addObject
    (s : AutoreleasePop)
    (object : Option KObjectRef)
    (answer : ReallocAnswer) : AutoreleasePop :=
  match
    autoreleasePoolAddObject none (s.address answer) s.tPool
      object s.memory
  with
  | .ok (tPool, added) memory =>
      { s with
        memory := memory
        tPool := tPool
        nextAddress := s.nextAddress + 1
        added :=
          if added then s.added ++ object.toList else s.added }
  | .error fault memory =>
      { s with phase := .faulted fault, memory := memory }

/-
  `KObjectRelease` by a deinitializer. The release of the
  last reference starts another deinitializer.
-/
def releaseObject
    (s : AutoreleasePop)
    (object : Option KObjectRef) : AutoreleasePop :=
  match object, s.phase with
  | some o, .releasing i running outer =>
      { s with
        clientReferences :=
          Function.update s.clientReferences o
            (s.clientReferences o - 1)
        phase :=
          if s.refCount o = 1 then
            .releasing i o (running :: outer)
          else
            .releasing i running outer }
  | _, _ => s

/-
  `KAutoreleaseMove`. Nothing follows an addition that is a
  fault.
-/
def moveObject
    (s : AutoreleasePop)
    (object : Option KObjectRef)
    (answer : ReallocAnswer) : AutoreleasePop :=
  (s.addObject object answer).releaseObject object

/- `KAutoreleasePoolPop`, up to the loop. -/
def enter (s : AutoreleasePop) : AutoreleasePop :=
  match s.tPool with
  | none => { s with phase := .returned 0 }
  | some array =>
      { s with
        phase := .walking 0
        items := array.items.buffer }

/- `KObjectRelease(items[i])` -/
def releaseSlot
    (items : Option Nat)
    (i : Nat) : BlockCall KObjectRef KObjectRef := do
  let o ← loadWord items i
  lift (KObject.release o)
  pure o

/- The loop of `KArrayRemoveAllObjects`, and its end. -/
def walk (s : AutoreleasePop) (i : Nat) : AutoreleasePop :=
  if i < s.length then
    match releaseSlot s.items i s.memory with
    | .ok o memory =>
        { s with
          memory := memory
          released := s.released ++ [o]
          phase :=
            if s.refCount o = 1 then
              .releasing i o []
            else
              .walking (i + 1) }
    | .error fault memory =>
        { s with phase := .faulted fault, memory := memory }
  else
    { s with
      phase := .returned s.length
      tPool :=
        s.tPool.map (fun array => { array with length := 0 }) }

/- The next step of the pop. -/
def proceed (s : AutoreleasePop) : Option AutoreleasePop :=
  match s.phase with
  | .idle => some s.enter
  | .walking i => some (s.walk i)
  | .releasing i _ [] => some { s with phase := .walking (i + 1) }
  | .releasing i _ (running :: outer) =>
      some { s with phase := .releasing i running outer }
  | .returned _ => none
  | .faulted _ => none

/- Only a deinitializer that runs can act. -/
def act
    (s : AutoreleasePop)
    (action : AutoreleasePop) : Option AutoreleasePop :=
  match s.phase with
  | .releasing _ _ _ => some action
  | _ => none

def step
    (s : AutoreleasePop) : PopStep → Option AutoreleasePop
| .proceed => s.proceed
| .add object answer => s.act (s.addObject object answer)
| .move object answer => s.act (s.moveObject object answer)
| .release object => s.act (s.releaseObject object)

end AutoreleasePop

end KDoth

------------------------------------------------------------
-- What A Pop Should Do
------------------------------------------------------------

namespace KDoth

namespace AutoreleasePop

/- The pool has these objects in its slots. -/
def Holds
    (s : AutoreleasePop)
    (objects : List KObjectRef) : Prop :=
  match s.tPool with
  | none => objects = []
  | some array =>
      array.length = objects.length ∧
        (objects = [] ∨
          ∃ b,
            KAllocationHead.Backed s.memory.cell array.items b ∧
              b.Holds objects)

/- A pool with these objects is about to be popped. -/
structure Starts
    (objects : List KObjectRef)
    (s : AutoreleasePop) : Prop where
  phase : s.phase = .idle
  released : s.released = []
  added : s.added = []
  holds : s.Holds objects
  fresh : ∀ a, s.nextAddress ≤ a → s.memory.cell a = none
  used :
    ∀ array a,
      s.tPool = some array →
        array.items.buffer = some a → a < s.nextAddress

def system
    (objects : List KObjectRef) :
    TransitionSystem AutoreleasePop PopStep where
  Init := Starts objects
  step := step

/- The pop returned, or an access to memory was a fault. -/
def Done (s : AutoreleasePop) : Prop :=
  match s.phase with
  | .returned _ => True
  | .faulted _ => True
  | _ => False

/-
  The pop returned, so it read no slot of a freed block. It
  released what was in the pool once, and what was added was
  released once as well or stays in the pool.
-/
structure PopsOnce
    (objects : List KObjectRef)
    (s : AutoreleasePop) : Prop where
  returned : ∃ removed, s.phase = .returned removed
  once :
    ∃ popped kept,
      s.added.Perm (popped ++ kept) ∧
        s.released.Perm (objects ++ popped) ∧
        s.Holds kept

/- The buffer of the pool was not freed. -/
def BlockLive (s : AutoreleasePop) : Prop :=
  match s.tPool.bind (fun array => array.items.buffer) with
  | none => False
  | some a => (s.memory.cell a).isSome = true

/-
  An addition that leaves the block of the pool where it is
  and writes inside it. A request for no bytes frees the
  block, which is harmless once all slots were read.
-/
def Harmless
    (s : AutoreleasePop)
    (answer : ReallocAnswer) : Prop :=
  s.BlockLive ∧
    if KArray.grownSize s.length = 0 then
      s.phase.next = s.length
    else
      answer = .refused ∨
        (answer = .inPlace ∧ s.length < 2 ^ 28)

/- The additions of a step are harmless. -/
def Spares (s : AutoreleasePop) : PopStep → Prop
| .add (some _) answer => s.Harmless answer
| .move (some _) answer => s.Harmless answer
| _ => True

instance (s : AutoreleasePop) : Decidable s.Done := by
  unfold Done
  split <;> infer_instance

instance (s : AutoreleasePop) : Decidable s.BlockLive := by
  unfold BlockLive
  split <;> infer_instance

instance
    (s : AutoreleasePop)
    (answer : ReallocAnswer) :
    Decidable (s.Harmless answer) := by
  unfold Harmless
  infer_instance

instance
    (s : AutoreleasePop)
    (l : PopStep) :
    Decidable (s.Spares l) := by
  unfold Spares
  split <;> infer_instance

end AutoreleasePop

end KDoth
