import KDoth.Runtime.Refusals

/-
  Lists of `klist.c` over the process state, as the sequence
  of items that the chain of nodes holds.

  Key definitions include:
    * `KList`
    * `KList.new`
    * `KList.addObject`
    * `KList.removeObjectAtIndex`
    * `KList.removeAllObjects`
    * `KList.deInit`
-/

------------------------------------------------------------
-- Lists
------------------------------------------------------------

namespace KDoth

structure KList (α : Type) where
  address : Nat
  items : List α

namespace KList

variable {α : Type} [KObject α]

/- `KListGetCount`. -/
def getCount (list : KList α) : Nat :=
  list.items.length

/- `KListGetObjectAtIndex`. -/
def getObjectAtIndex
    (list : KList α)
    (index : Nat) :
    Option α :=
  list.items[index]?

/- `KListContainsObject`. -/
def containsObject
    [DecidableEq α]
    (list : KList α)
    (object : Option α) : Bool :=
  match object with
  | none => false
  | some object => decide (object ∈ list.items)

/- `KListRemoveAllObjects`. -/
def removeAllObjects
    (list : KList α) :
    Call (KList α × Nat) := do
  forM list.items KObject.release
  pure ({ list with items := [] }, list.getCount)

/- `KListDeInit`. -/
def deInit (list : KList α) : Call Unit := do
  let count := list.getCount
  let (_, removed) ← list.removeAllObjects
  kAssert (count == removed)

instance : KObject (KList α) where
  retain list := objectRetain list.address
  release list := objectRelease list.address list.deInit

/- `KListNew`. -/
def new
    (allocator : Allocator) :
    Call (Option (KList α)) := do
  match ← objectNew allocator .kList with
  | none => pure none
  | some address =>
      pure (some { address := address, items := [] })

/- `KListAddObject`. The list owns a reference to the item. -/
def addObject
    (allocator : Allocator)
    (list : KList α)
    (object : Option α) :
    Call (KList α × Bool) := do
  match object with
  | none => pure (list, false)
  | some object =>
      let granted ← request allocator .listEntry
      if granted then
        KObject.retain object
        pure
          ({ list with items := list.items ++ [object] }, true)
      else
        pure (list, false)

/-
  `KListRemoveObjectAtIndex`. The list's reference to the
  item goes to the caller, so nothing is released here.
-/
def removeObjectAtIndex
    (list : KList α)
    (index : Nat) :
    KList α × Option α :=
  match list.items[index]? with
  | none => (list, none)
  | some item =>
      ({ list with items := list.items.eraseIdx index },
        some item)

end KList

end KDoth

------------------------------------------------------------
-- Safe Use
------------------------------------------------------------

namespace KDoth

namespace KList

variable {α : Type} [KObject α] [SafeObject α]
variable {allocator : Allocator} {A : Prop}

/- The items are well built. -/
def WellBuilt (list : KList α) : Prop :=
  ∀ x ∈ list.items, SafeObject.WellBuilt x

theorem runs_removeAllObjects
    (list : KList α)
    (hBuilt : list.WellBuilt) :
    Runs allocator A list.removeAllObjects
      (fun r => r.1.items = [] ∧ r.2 = list.getCount) := by
  refine Runs.bind (Runs.each list.items ?_) ?_
  · intro x hx
    exact SafeObject.runs_release allocator A x (hBuilt x hx)
  · intro _ _
    exact Runs.ret ⟨rfl, rfl⟩

/- The assertion on the removed count holds. -/
theorem runs_deInit
    (list : KList α)
    (hBuilt : list.WellBuilt) :
    Runs allocator A list.deInit (fun _ => True) := by
  refine Runs.bind (runs_removeAllObjects list hBuilt) ?_
  intro r hr
  rcases r with ⟨cleared, removed⟩
  have hSame : removed = list.getCount := hr.2
  refine Runs.mono (Runs.ofAssert ?_) (fun _ _ => trivial)
  intro hFail
  simp [hSame] at hFail

instance : SafeObject (KList α) where
  WellBuilt := WellBuilt
  runs_retain _ _ _ := Runs.ofObjectRetain
  runs_release _ _ list hBuilt :=
    Runs.ofObjectRelease (runs_deInit list hBuilt)

omit [KObject α] [SafeObject α] in
theorem runs_new :
    Runs allocator A (new (α := α) allocator)
      (fun r =>
        (r = none → ∃ n, allocator n = false) ∧
          ∀ list, r = some list → list.items = []) := by
  refine Runs.bind (Runs.ofObjectNew rfl) ?_
  intro address hAddress
  cases address with
  | none => exact Runs.ret ⟨fun _ => hAddress rfl, by simp⟩
  | some address =>
      refine Runs.ret ⟨by simp, ?_⟩
      intro list hEq
      cases hEq
      rfl

/- Adding appends, or leaves the list as it was. -/
theorem runs_addObject
    (list : KList α)
    (object : Option α) :
    Runs allocator A (list.addObject allocator object)
      (fun r =>
        (r.2 = true →
            ∃ x, object = some x ∧
              r.1 = { list with items := list.items ++ [x] }) ∧
          (r.2 = false →
            r.1 = list ∧
              (object = none ∨ ∃ n, allocator n = false))) := by
  unfold addObject
  cases object with
  | none => exact Runs.ret ⟨by simp, fun _ => ⟨rfl, Or.inl rfl⟩⟩
  | some x =>
      refine Runs.bind (Runs.ofRequest rfl) ?_
      intro granted hGranted
      cases granted with
      | false =>
          exact
            Runs.ret
              ⟨by simp, fun _ => ⟨rfl, Or.inr (hGranted rfl)⟩⟩
      | true =>
          apply Runs.bind_retain x
          exact Runs.ret ⟨fun _ => ⟨x, rfl, rfl⟩, by simp⟩

end KList

end KDoth
