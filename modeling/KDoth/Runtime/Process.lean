import KDoth.Foundations.Command
import Mathlib.Logic.Function.Basic

/-
  The process state that library calls read and write, and
  the reference-counting core of `kobject.c`.

  A library object (array, list, map, entry, string, task)
  keeps its contents inline at its owner and its reference
  count in the process under its address. Objects of the
  client are opaque references; the process records how many
  references the library holds to each of them. Allocation
  requests are answered in order by an allocator, and the
  requests made so far are logged.

  Key definitions include:
    * `Stop`
    * `AllocationSite`
    * `Process`
    * `request`
    * `objectNew`
    * `objectRetain`
    * `objectRelease`
    * `KObject`
-/

------------------------------------------------------------
-- Process State
------------------------------------------------------------

namespace KDoth

/- Why a call does not return. -/
inductive Stop where
  | assertFailed
  | nullDereference
  | outOfFuel
deriving DecidableEq, Repr

/- The library classes whose objects `KObjectNew` makes. -/
inductive ObjectClass where
  | kAllocation
  | kArray
  | kList
  | kMapEntry
  | kMap
  | kString
  | kFilePath
  | kWorkerPoolTask
deriving DecidableEq, Repr

/- The calls to `calloc`, `malloc` and `realloc`. -/
inductive AllocationSite where
  | objectNew (clasz : ObjectClass)
  | listEntry
  | truncate (size : Nat)
  | stringData (count : Nat)
  | stringFormat (size : Nat)
  | stringAppend (size : Nat)
deriving DecidableEq, Repr

/- A non-NULL reference to an object of the client. -/
structure KObjectRef where
  address : Nat
deriving DecidableEq, Repr

/-
  `requests` are the allocation requests made so far, oldest
  first. `refCount` holds the `ref_count` of each library
  object, and `references` the references the library holds
  to each object of the client. `stray` tells whether a
  buffer was used after it was freed: what calls do from then
  on is not what the program does.
-/
structure Process where
  requests : List AllocationSite
  nextAddress : Nat
  refCount : Nat → Nat
  references : KObjectRef → Int
  stray : Bool := false

/- The allocator's answers to the requests, in order. -/
abbrev Allocator := Nat → Bool

/- A library call. -/
abbrev Call (α : Type) := Command Stop Process α

/- The process before the first library call. -/
def Process.initial : Process where
  requests := []
  nextAddress := 0
  refCount := fun _ => 0
  references := fun _ => 0

end KDoth

------------------------------------------------------------
-- Process Updates
------------------------------------------------------------

namespace KDoth

namespace Process

/- One more allocation request. -/
def requested
    (p : Process)
    (site : AllocationSite) : Process :=
  { p with requests := p.requests ++ [site] }

/- Write the reference count of a library object. -/
def setCount
    (p : Process)
    (address count : Nat) : Process :=
  { p with
    refCount := Function.update p.refCount address count }

/- A new library object at the next address. -/
def created (p : Process) : Process :=
  { p with
    nextAddress := p.nextAddress + 1
    refCount := Function.update p.refCount p.nextAddress 1 }

/- A buffer that was freed is used. -/
def strayed (p : Process) : Process :=
  { p with stray := true }

/- Change what the library holds of a client's object. -/
def addReferences
    (p : Process)
    (o : KObjectRef)
    (n : Int) : Process :=
  { p with
    references :=
      Function.update p.references o (p.references o + n) }

@[simp] theorem requested_requests
    (p : Process)
    (site : AllocationSite) :
    (p.requested site).requests = p.requests ++ [site] :=
  rfl

@[simp] theorem requested_nextAddress
    (p : Process)
    (site : AllocationSite) :
    (p.requested site).nextAddress = p.nextAddress :=
  rfl

@[simp] theorem requested_refCount
    (p : Process)
    (site : AllocationSite) :
    (p.requested site).refCount = p.refCount :=
  rfl

@[simp] theorem requested_references
    (p : Process)
    (site : AllocationSite) :
    (p.requested site).references = p.references :=
  rfl

@[simp] theorem setCount_requests
    (p : Process)
    (a n : Nat) :
    (p.setCount a n).requests = p.requests :=
  rfl

@[simp] theorem setCount_nextAddress
    (p : Process)
    (a n : Nat) :
    (p.setCount a n).nextAddress = p.nextAddress :=
  rfl

@[simp] theorem setCount_refCount
    (p : Process)
    (a n : Nat) :
    (p.setCount a n).refCount =
      Function.update p.refCount a n :=
  rfl

@[simp] theorem setCount_references
    (p : Process)
    (a n : Nat) :
    (p.setCount a n).references = p.references :=
  rfl

@[simp] theorem created_requests
    (p : Process) :
    p.created.requests = p.requests :=
  rfl

@[simp] theorem created_nextAddress
    (p : Process) :
    p.created.nextAddress = p.nextAddress + 1 :=
  rfl

@[simp] theorem created_refCount
    (p : Process) :
    p.created.refCount =
      Function.update p.refCount p.nextAddress 1 :=
  rfl

@[simp] theorem created_references
    (p : Process) :
    p.created.references = p.references :=
  rfl

@[simp] theorem addReferences_requests
    (p : Process)
    (o : KObjectRef)
    (n : Int) :
    (p.addReferences o n).requests = p.requests :=
  rfl

@[simp] theorem addReferences_nextAddress
    (p : Process)
    (o : KObjectRef)
    (n : Int) :
    (p.addReferences o n).nextAddress = p.nextAddress :=
  rfl

@[simp] theorem addReferences_refCount
    (p : Process)
    (o : KObjectRef)
    (n : Int) :
    (p.addReferences o n).refCount = p.refCount :=
  rfl

@[simp] theorem addReferences_references
    (p : Process)
    (o : KObjectRef)
    (n : Int) :
    (p.addReferences o n).references =
      Function.update p.references o (p.references o + n) :=
  rfl

end Process

end KDoth

------------------------------------------------------------
-- Allocation And Assertions
------------------------------------------------------------

namespace KDoth

/- Ask the allocator for a block. -/
def request
    (allocator : Allocator)
    (site : AllocationSite) :
    Call Bool := do
  let p ← get
  set (p.requested site)
  pure (allocator p.requests.length)

/- `K_ASSERT`. -/
def kAssert (condition : Bool) : Call Unit :=
  if condition then pure () else throw .assertFailed

/- `K_ASSERT` of a pointer that is used afterwards. -/
def kAssertSome {α : Type} : Option α → Call α
| none => throw .assertFailed
| some x => pure x

end KDoth

------------------------------------------------------------
-- Reference Counting
------------------------------------------------------------

namespace KDoth

/-
  `KObjectNew`: the control block of a library object, with a
  reference count of one. The initializer is run by the
  caller. NULL is `none`.
-/
def objectNew
    (allocator : Allocator)
    (clasz : ObjectClass) :
    Call (Option Nat) := do
  let granted ← request allocator (.objectNew clasz)
  if granted then
    let p ← get
    set p.created
    pure (some p.nextAddress)
  else
    pure none

/- `KObjectRetain` on a library object. -/
def objectRetain (address : Nat) : Call Unit :=
  modify fun p => p.setCount address (p.refCount address + 1)

/-
  `KObjectRelease` on a library object: the release that
  drops the last reference runs the deinitializer.
-/
def objectRelease
    (address : Nat)
    (deInit : Call Unit) :
    Call Unit := do
  let p ← get
  set (p.setCount address (p.refCount address - 1))
  if p.refCount address = 1 then deInit else pure ()

/- Objects that `KObjectRetain` and `KObjectRelease` accept. -/
class KObject (α : Type) where
  retain : α → Call Unit
  release : α → Call Unit

/-
  Retaining or releasing an object of the client only changes
  what the library holds: its count and its deinitializer
  belong to the client.
-/
instance : KObject KObjectRef where
  retain o := modify fun p => p.addReferences o 1
  release o := modify fun p => p.addReferences o (-1)

/- `KObjectRelease` accepts NULL. -/
def KObject.releaseOrNull
    {α : Type}
    [KObject α] : Option α → Call Unit
| none => pure ()
| some x => KObject.release x

end KDoth

------------------------------------------------------------
-- Weakest Preconditions
------------------------------------------------------------

namespace KDoth

open Command

variable {E : Stop → Process → Prop} {p : Process}

@[simp] theorem wp_request
    {allocator : Allocator}
    {site : AllocationSite}
    {Q : Bool → Process → Prop} :
    wp (request allocator site) Q E p ↔
      Q (allocator p.requests.length) (p.requested site) :=
  Iff.rfl

@[simp] theorem wp_kAssert
    {condition : Bool}
    {Q : Unit → Process → Prop} :
    wp (kAssert condition) Q E p ↔
      if condition then Q () p else E .assertFailed p := by
  cases condition <;> rfl

/- What a creation does. -/
theorem objectNew_apply
    {allocator : Allocator}
    {clasz : ObjectClass} :
    objectNew allocator clasz p =
      if allocator p.requests.length then
        .ok (some p.nextAddress)
          (p.requested (.objectNew clasz)).created
      else
        .ok none (p.requested (.objectNew clasz)) := by
  have hRequest :
      request allocator (.objectNew clasz) p =
        .ok (allocator p.requests.length)
          (p.requested (.objectNew clasz)) :=
    rfl
  unfold objectNew
  rw [bind_of_ok hRequest]
  cases allocator p.requests.length with
  | true => rfl
  | false => rfl

/- A new object is granted or NULL. -/
theorem wp_objectNew
    {allocator : Allocator}
    {clasz : ObjectClass}
    {Q : Option Nat → Process → Prop} :
    wp (objectNew allocator clasz) Q E p ↔
      if allocator p.requests.length then
        Q (some p.nextAddress)
          (p.requested (.objectNew clasz)).created
      else
        Q none (p.requested (.objectNew clasz)) := by
  simp only [objectNew, wp_bind, wp_request]
  cases allocator p.requests.length <;> rfl

@[simp] theorem wp_objectRetain
    {address : Nat}
    {Q : Unit → Process → Prop} :
    wp (objectRetain address) Q E p ↔
      Q () (p.setCount address (p.refCount address + 1)) :=
  Iff.rfl

/- What a release does. -/
theorem objectRelease_apply
    {address : Nat}
    {deInit : Call Unit} :
    objectRelease address deInit p =
      if p.refCount address = 1 then
        deInit (p.setCount address 0)
      else
        .ok () (p.setCount address (p.refCount address - 1)) := by
  unfold objectRelease
  by_cases hLast : p.refCount address = 1
  · rw [if_pos hLast]
    change
      (if p.refCount address = 1 then deInit else pure ())
        (p.setCount address (p.refCount address - 1)) = _
    rw [if_pos hLast, hLast]
  · rw [if_neg hLast]
    change
      (if p.refCount address = 1 then deInit else pure ())
        (p.setCount address (p.refCount address - 1)) = _
    rw [if_neg hLast]
    rfl

/- Only the release of the last reference deinitializes. -/
theorem wp_objectRelease
    {address : Nat}
    {deInit : Call Unit}
    {Q : Unit → Process → Prop} :
    wp (objectRelease address deInit) Q E p ↔
      if p.refCount address = 1 then
        wp deInit Q E (p.setCount address 0)
      else
        Q () (p.setCount address (p.refCount address - 1)) := by
  simp only [objectRelease, wp_bind, wp_get, wp_set]
  by_cases hLast : p.refCount address = 1
  · simp [hLast]
  · simp [hLast]

@[simp] theorem wp_retain_client
    {o : KObjectRef}
    {Q : Unit → Process → Prop} :
    wp (KObject.retain o) Q E p ↔
      Q () (p.addReferences o 1) :=
  Iff.rfl

@[simp] theorem wp_release_client
    {o : KObjectRef}
    {Q : Unit → Process → Prop} :
    wp (KObject.release o) Q E p ↔
      Q () (p.addReferences o (-1)) :=
  Iff.rfl

end KDoth
