import KDoth.Foundations.TransitionSystem
import KDoth.Runtime.Process
import Mathlib.Logic.Function.Basic

/-
  Objects that threads share: `kobject.c` and
  `kautorelease.c`, with every operation on a reference count
  as a step of its own. A release that is the last one calls
  the deinitializer of the object, which goes on in the
  thread of the release while the others go on as well.

  The fields of an object are set when it is made, and its
  deinitializer releases them. In between, its code may make
  the calls that other code of the thread makes. It makes none
  on an autorelease pool that is being popped. An addition to
  a pool that is not granted its memory changes nothing. A
  call on NULL does nothing and is left out.

  Key definitions include:
    * `CountBranch`
    * `SharedFrame`
    * `ObjectThread`
    * `ObjectThread.runsCode`
    * `SharedObjects`
    * `SharedObjects.release`
    * `SharedObjects.proceed`
    * `SharedStep`
    * `SharedObjects.Enabled`
    * `SharedObjects.next`
    * `SharedObjects.Roomy`
    * `sharedObjects`
-/

------------------------------------------------------------
-- Reference Counts
------------------------------------------------------------

namespace KDoth

/-
  How `kobject.c` counts: with the operations of
  `stdatomic.h`, or on Windows with the interlocked ones.
-/
inductive CountBranch where
  | atomics
  | interlocked
deriving DecidableEq, Repr

namespace CountBranch

/- `atomic_fetch_add` or `InterlockedIncrement`. -/
def increment (_ : CountBranch) (word : UInt32) : UInt32 :=
  word + 1

/-
  The word after `atomic_fetch_sub` or `InterlockedDecrement`
  and whether the deinitializer is called. The first returns
  the old word and the second the new one.
-/
def decrement
    (b : CountBranch)
    (word : UInt32) : UInt32 × Bool :=
  match b with
  | .atomics => (word - 1, word == 1)
  | .interlocked => (word - 1, word - 1 == 0)

/-
  `KObjectGetRetainCount`. The `LONG` of Windows is signed,
  and is widened to a `size_t` with its sign.
-/
def retainCount
    (b : CountBranch)
    (word : UInt32) : UInt64 :=
  match b with
  | .atomics => word.toUInt64
  | .interlocked => word.toInt32.toInt64.toUInt64

end CountBranch

end KDoth

------------------------------------------------------------
-- State
------------------------------------------------------------

namespace KDoth

/- An object with the count of its control block. -/
structure SharedObject where
  refCount : UInt32
  fields : List KObjectRef
deriving DecidableEq, Repr

/- What a call does after its last release. -/
inductive SharedEnding where
  /-
    `free` of an object. Its deinitializer was called, or is
    to be called first.
  -/
  | free (o : KObjectRef) (called : Bool)
  /- The end of `KArrayRemoveAllObjects` on the pool. -/
  | clear
  /- `KAutoreleaseMove` returns. -/
  | done
deriving DecidableEq, Repr

/- A call under way, with what it still has to release. -/
structure SharedFrame where
  left : List KObjectRef
  ending : SharedEnding
deriving DecidableEq, Repr

/-
  A thread with the references that its code holds, its
  `tPool`, empty also if it was not made yet, and its calls
  under way, the innermost first.
-/
structure ObjectThread where
  held : KObjectRef → Nat
  pool : List KObjectRef
  frames : List SharedFrame

/- The frame empties the pool of its thread. -/
def SharedFrame.clears (f : SharedFrame) : Bool :=
  decide (f.ending = .clear)

namespace ObjectThread

/- The thread with other calls under way. -/
def setFrames
    (a : ObjectThread)
    (frames : List SharedFrame) : ObjectThread :=
  { a with frames := frames }

/- The pool of the thread is being emptied. -/
def clearing (a : ObjectThread) : Bool :=
  a.frames.any SharedFrame.clears

/-
  What the pool holds. While it is emptied its references are
  those that the loop has still to release.
-/
def pooled (a : ObjectThread) : List KObjectRef :=
  bif a.clearing then [] else a.pool

/-
  The fields that the deinitializer under way has not
  released yet. There is none outside of a deinitializer.
-/
def unreleased (a : ObjectThread) : List KObjectRef :=
  match a.frames with
  | ⟨left, .free _ true⟩ :: _ => left
  | _ => []

/- The thread is in no call, or in a deinitializer. -/
def runsCode (a : ObjectThread) : Bool :=
  match a.frames with
  | [] => true
  | ⟨_, .free _ true⟩ :: _ => true
  | _ => false

end ObjectThread

/-
  `objects` are the objects that are not freed. The last
  three fields record the calls of deinitializers and of
  `free`, oldest first, and whether an object was accessed
  that was freed or never made.
-/
structure SharedObjects (Thread : Type) where
  objects : KObjectRef → Option SharedObject
  nextAddress : Nat
  threads : Thread → ObjectThread
  deInits : List KObjectRef
  frees : List KObjectRef
  stale : Bool

namespace SharedObjects

variable {Thread : Type}

/- No object was made yet. -/
def initial : SharedObjects Thread where
  objects := fun _ => none
  nextAddress := 0
  threads := fun _ =>
    { held := fun _ => 0, pool := [], frames := [] }
  deInits := []
  frees := []
  stale := false

/- Put an object at an address, or free it. -/
def put
    (s : SharedObjects Thread)
    (o : KObjectRef)
    (object : Option SharedObject) : SharedObjects Thread :=
  { s with objects := Function.update s.objects o object }

/- An access to an object. -/
def access
    (s : SharedObjects Thread)
    (o : KObjectRef) : SharedObjects Thread :=
  match s.objects o with
  | none => { s with stale := true }
  | some _ => s

/- The fields of an object, as far as it can be read. -/
def fieldsOf
    (s : SharedObjects Thread)
    (o : KObjectRef) : List KObjectRef :=
  match s.objects o with
  | none => []
  | some object => object.fields

variable [DecidableEq Thread]

def setThread
    (s : SharedObjects Thread)
    (t : Thread)
    (a : ObjectThread) : SharedObjects Thread :=
  { s with threads := Function.update s.threads t a }

def setFrames
    (s : SharedObjects Thread)
    (t : Thread)
    (frames : List SharedFrame) : SharedObjects Thread :=
  s.setThread t ((s.threads t).setFrames frames)

/- Put a call on top of those of a thread. -/
def push
    (s : SharedObjects Thread)
    (t : Thread)
    (f : SharedFrame) : SharedObjects Thread :=
  s.setFrames t (f :: (s.threads t).frames)

/- The code of a thread gets a reference. -/
def gain
    (s : SharedObjects Thread)
    (t : Thread)
    (o : KObjectRef) : SharedObjects Thread :=
  s.setThread t
    { s.threads t with
      held := fun x => (s.threads t).held x + [o].count x }

/- The code of a thread gives up references. -/
def lose
    (s : SharedObjects Thread)
    (t : Thread)
    (l : List KObjectRef) : SharedObjects Thread :=
  s.setThread t
    { s.threads t with
      held := fun x => (s.threads t).held x - l.count x }

/- The pool of a thread gets a reference. -/
def pooled
    (s : SharedObjects Thread)
    (t : Thread)
    (o : KObjectRef) : SharedObjects Thread :=
  s.setThread t
    { s.threads t with pool := (s.threads t).pool ++ [o] }

end SharedObjects

end KDoth

------------------------------------------------------------
-- Operations
------------------------------------------------------------

namespace KDoth

namespace SharedObjects

variable {Thread : Type}

/- `KObjectRetain` -/
def retain
    (b : CountBranch)
    (s : SharedObjects Thread)
    (o : KObjectRef) : SharedObjects Thread :=
  match s.objects o with
  | none => { s with stale := true }
  | some object =>
      s.put o
        (some
          { object with
            refCount := b.increment object.refCount })

variable [DecidableEq Thread]

/-
  `KObjectNew`. A new object takes over references that the
  thread holds to the objects in its fields.
-/
def objectNew
    (s : SharedObjects Thread)
    (t : Thread)
    (fields : List KObjectRef) : SharedObjects Thread :=
  let o : KObjectRef := ⟨s.nextAddress⟩
  let object := { refCount := 1, fields := fields }
  { ((s.lose t fields).gain t o).put o (some object) with
    nextAddress := s.nextAddress + 1 }

/-
  `KObjectRelease` up to the test of the count. The rest of a
  last release is a call of its own.
-/
def release
    (b : CountBranch)
    (s : SharedObjects Thread)
    (t : Thread)
    (o : KObjectRef) : SharedObjects Thread :=
  match s.objects o with
  | none => { s with stale := true }
  | some object =>
      let r := b.decrement object.refCount
      let counted :=
        s.put o (some { object with refCount := r.1 })
      if r.2 then
        counted.push t
          { left := object.fields, ending := .free o false }
      else
        counted

/- `KAutoreleasePoolAddObject` -/
def autoreleasePoolAddObject
    (b : CountBranch)
    (s : SharedObjects Thread)
    (t : Thread)
    (o : KObjectRef)
    (granted : Bool) : SharedObjects Thread :=
  if granted then (s.retain b o).pooled t o else s

/- `KAutoreleaseMove` up to its release. -/
def autoreleaseMove
    (b : CountBranch)
    (s : SharedObjects Thread)
    (t : Thread)
    (o : KObjectRef)
    (granted : Bool) : SharedObjects Thread :=
  ((s.autoreleasePoolAddObject b t o granted).lose t [o]).push t
    { left := [o], ending := .done }

/- `KAutoreleasePoolPop` up to its loop. -/
def autoreleasePoolPop
    (s : SharedObjects Thread)
    (t : Thread) : SharedObjects Thread :=
  s.push t { left := (s.threads t).pool, ending := .clear }

/- The end of the innermost call of a thread. -/
def finish
    (s : SharedObjects Thread)
    (t : Thread)
    (ending : SharedEnding)
    (rest : List SharedFrame) : SharedObjects Thread :=
  match ending with
  | .free o _ =>
      let last := ((s.access o).put o none).setFrames t rest
      { last with frees := s.frees ++ [o] }
  | .clear =>
      s.setThread t
        { s.threads t with pool := [], frames := rest }
  | .done => s.setFrames t rest

/- The deinitializer of an object is called. -/
def callDeInit
    (s : SharedObjects Thread)
    (t : Thread)
    (o : KObjectRef)
    (left : List KObjectRef)
    (rest : List SharedFrame) : SharedObjects Thread :=
  let called :=
    (s.access o).setFrames t
      ({ left := left, ending := .free o true } :: rest)
  { called with deInits := s.deInits ++ [o] }

/-
  The innermost call of a thread goes on: a deinitializer is
  called, one more reference is given up, or the call ends. A
  deinitializer reads each reference in a field of its object.
-/
def proceed
    (b : CountBranch)
    (s : SharedObjects Thread)
    (t : Thread) : SharedObjects Thread :=
  match (s.threads t).frames with
  | [] => s
  | f :: rest =>
      match f.ending, f.left with
      | .free o false, left => s.callDeInit t o left rest
      | ending, [] => s.finish t ending rest
      | .free o true, x :: left =>
          ((s.access o).setFrames t
            ({ left := left, ending := .free o true } ::
              rest)).release b t x
      | ending, x :: left =>
          (s.setFrames t
            ({ left := left, ending := ending } ::
              rest)).release b t x

end SharedObjects

end KDoth

------------------------------------------------------------
-- Steps
------------------------------------------------------------

namespace KDoth

/-
  The steps of threads. A thread retains an object that it
  may use, or one in a field of such an object, and hands
  references that it holds over to other threads.
-/
inductive SharedStep (Thread : Type) where
  | objectNew
      (t : Thread) (fields : List KObjectRef) (granted : Bool)
  | objectRetain (t : Thread) (o : KObjectRef)
  | retainField (t : Thread) (o x : KObjectRef)
  | give (t u : Thread) (o : KObjectRef)
  | objectRelease (t : Thread) (o : KObjectRef)
  | autoreleasePoolAddObject
      (t : Thread) (o : KObjectRef) (granted : Bool)
  | autoreleaseMove
      (t : Thread) (o : KObjectRef) (granted : Bool)
  | autoreleasePoolPop (t : Thread)
  | proceed (t : Thread)
deriving DecidableEq

namespace SharedObjects

variable {Thread : Type}

/- The thread is in no call. -/
def Idle (s : SharedObjects Thread) (t : Thread) : Prop :=
  (s.threads t).frames = []

/- Code of the thread can make a call. -/
def Runs (s : SharedObjects Thread) (t : Thread) : Prop :=
  (s.threads t).runsCode = true

/- It can make a call on the pool of the thread. -/
def Pools (s : SharedObjects Thread) (t : Thread) : Prop :=
  s.Runs t ∧ (s.threads t).clearing = false

/-
  The code of the thread holds a reference, its pool does, or
  an object does that it deinitializes.
-/
def Uses
    (s : SharedObjects Thread)
    (t : Thread)
    (o : KObjectRef) : Prop :=
  0 < (s.threads t).held o ∨ o ∈ (s.threads t).pooled ∨
    o ∈ (s.threads t).unreleased

/- When a step can be taken. -/
def Enabled
    (s : SharedObjects Thread) :
    SharedStep Thread → Prop
| .objectNew t fields _ =>
    s.Runs t ∧
      ∀ x ∈ fields, fields.count x ≤ (s.threads t).held x
| .objectRetain t o => s.Runs t ∧ s.Uses t o
| .retainField t o x =>
    s.Runs t ∧ s.Uses t o ∧
      (s.objects o = none ∨ x ∈ s.fieldsOf o)
| .give t _ o => s.Runs t ∧ 0 < (s.threads t).held o
| .objectRelease t o =>
    s.Runs t ∧ 0 < (s.threads t).held o
| .autoreleasePoolAddObject t o _ => s.Pools t ∧ s.Uses t o
| .autoreleaseMove t o _ =>
    s.Pools t ∧ 0 < (s.threads t).held o
| .autoreleasePoolPop t => s.Pools t
| .proceed t => ¬ s.Idle t

variable [DecidableEq Thread]

/- The state after an enabled step. -/
def next
    (b : CountBranch)
    (s : SharedObjects Thread) :
    SharedStep Thread → SharedObjects Thread
| .objectNew t fields granted =>
    if granted then s.objectNew t fields else s
| .objectRetain t o => (s.retain b o).gain t o
| .retainField t o x => ((s.access o).retain b x).gain t x
| .give t u o => (s.lose t [o]).gain u o
| .objectRelease t o => (s.lose t [o]).release b t o
| .autoreleasePoolAddObject t o granted =>
    s.autoreleasePoolAddObject b t o granted
| .autoreleaseMove t o granted =>
    s.autoreleaseMove b t o granted
| .autoreleasePoolPop t => s.autoreleasePoolPop t
| .proceed t => s.proceed b t

instance
    (s : SharedObjects Thread)
    (t : Thread) :
    Decidable (s.Idle t) := by
  unfold Idle
  infer_instance

instance
    (s : SharedObjects Thread)
    (t : Thread) :
    Decidable (s.Runs t) := by
  unfold Runs
  infer_instance

instance
    (s : SharedObjects Thread)
    (t : Thread) :
    Decidable (s.Pools t) := by
  unfold Pools
  infer_instance

instance
    (s : SharedObjects Thread)
    (t : Thread)
    (o : KObjectRef) :
    Decidable (s.Uses t o) := by
  unfold Uses
  infer_instance

instance
    (s : SharedObjects Thread)
    (l : SharedStep Thread) :
    Decidable (s.Enabled l) := by
  cases l <;> unfold Enabled <;> infer_instance

/- The count of an object, zero without one. -/
def count (s : SharedObjects Thread) (o : KObjectRef) : Nat :=
  match s.objects o with
  | none => 0
  | some object => object.refCount.toNat

/- One more reference to the object can be counted. -/
def Room
    (s : SharedObjects Thread)
    (o : KObjectRef) : Prop :=
  s.count o + 1 < 2 ^ 32

/- The array of the pool can grow by one more reference. -/
def PoolRoom
    (s : SharedObjects Thread)
    (t : Thread) : Prop :=
  (s.threads t).pool.length < 2 ^ 28

/-
  A step that retains an object finds room in its count, and
  one that adds it to a pool finds room there.
-/
def Roomy
    (s : SharedObjects Thread) :
    SharedStep Thread → Prop
| .objectRetain _ o => s.Room o
| .retainField _ _ x => s.Room x
| .autoreleasePoolAddObject t o _ => s.Room o ∧ s.PoolRoom t
| .autoreleaseMove t o _ => s.Room o ∧ s.PoolRoom t
| _ => True

instance
    (s : SharedObjects Thread)
    (o : KObjectRef) :
    Decidable (s.Room o) := by
  unfold Room
  infer_instance

instance
    (s : SharedObjects Thread)
    (t : Thread) :
    Decidable (s.PoolRoom t) := by
  unfold PoolRoom
  infer_instance

instance
    (s : SharedObjects Thread)
    (l : SharedStep Thread) :
    Decidable (s.Roomy l) := by
  cases l <;> unfold Roomy <;> infer_instance

end SharedObjects

/- The objects of a process with its threads. -/
def sharedObjects
    (b : CountBranch)
    (Thread : Type)
    [DecidableEq Thread] :
    TransitionSystem (SharedObjects Thread)
      (SharedStep Thread) where
  Init s := s = SharedObjects.initial
  step s l := if s.Enabled l then some (s.next b l) else none

end KDoth
