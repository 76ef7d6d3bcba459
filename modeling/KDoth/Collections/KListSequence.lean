import KDoth.Collections.KListChain
import KDoth.Collections.ItemSequence

/-
  Runs of calls on one list. The nodes refine the sequence:
  every run on the nodes returns what the run on the sequence
  returns, and leaves a doubly linked list of its items.

  Key definitions include:
    * `KListHead.call`
    * `KListHead.machine`
    * `KListHead.DoublyLinked`

  Key theorems include:
    * `KListHead.simulates_call`
    * `KListHead.Linked.doublyLinked`
    * `KListHead.refines_sequence`
-/

------------------------------------------------------------
-- Calls And Their Values
------------------------------------------------------------

namespace KDoth

namespace KListCall

variable {α : Type}

/- An address that `calloc` answers is free. -/
def Free
    (nodes : Nat → Option (KListEntry α)) :
    KListCall α → Prop
| .addObject (some _) (some a) => nodes a = none
| _ => True

end KListCall

/- A call on the nodes. -/
def KListHead.call
    {α : Type}
    [KObject α]
    [DecidableEq α]
    (list : KListHead) :
    KListCall α → NodeCall α (KListHead × ItemValue α)
| .addObject object answer => do
    let (list, added) ← list.addObject answer object
    pure (list, .flag added)
| .removeObjectAtIndex index => do
    let (list, object) ← list.removeObjectAtIndex index
    pure (list, .item object)
| .removeAllObjects => do
    let (list, removed) ← removeAllObjects (α := α) list
    pure (list, .number removed)
| .getObjectAtIndex index => do
    let object ← list.getObjectAtIndex index
    pure (list, .item object)
| .containsObject object => do
    let found ← list.containsObject object
    pure (list, .flag found)
| .getCount => pure (list, .number list.getCount)

/- The same call on the sequence of the items. -/
def KList.call
    {α : Type}
    [KObject α]
    [DecidableEq α]
    (list : KList α) :
    KListCall α → Call (KList α × ItemValue α)
| .addObject object answer => do
    let (list, added) ←
      list.addObject (fun _ => answer.isSome) object
    pure (list, .flag added)
| .removeObjectAtIndex index => do
    let (list, object) ← pure (list.removeObjectAtIndex index)
    pure (list, .item object)
| .removeAllObjects => do
    let (list, removed) ← list.removeAllObjects
    pure (list, .number removed)
| .getObjectAtIndex index =>
    pure (list, .item (list.getObjectAtIndex index))
| .containsObject object =>
    pure (list, .flag (list.containsObject object))
| .getCount => pure (list, .number list.getCount)

end KDoth

------------------------------------------------------------
-- Machines
------------------------------------------------------------

namespace KDoth

namespace KListHead

/- A list in memory as a machine. -/
def machine :
    Machine (KListHead × NodeMemory KObjectRef)
      (KListCall KObjectRef)
      (Except Fault (ItemValue KObjectRef)) :=
  MemoryCall.machine call

end KListHead

namespace KListHead

variable {α : Type}

/-
  Distinct nodes, as many as the count says, are in memory:
  the root leads to the first, each leads to the one behind
  it and back to the one before it, and they store the items.
-/
def DoublyLinked
    (nodes : Nat → Option (KListEntry α))
    (list : KListHead)
    (items : List α) : Prop :=
  ∃ addresses : List Nat,
    addresses.Nodup ∧
      addresses.length = list.count ∧
      items.length = list.count ∧
      list.root = addresses[0]? ∧
      ∀ i a, addresses[i]? = some a →
        ∃ entry,
          nodes a = some entry ∧
            entry.next = addresses[i + 1]? ∧
            entry.prev =
              (if i = 0 then none else addresses[i - 1]?) ∧
            entry.item = items[i]?

end KListHead

end KDoth

------------------------------------------------------------
-- One Call
------------------------------------------------------------

namespace KDoth

namespace KListHead

open Command

variable {α : Type}

theorem simulates_call
    [KObject α]
    [DecidableEq α]
    {s : NodeMemory α}
    {list : KListHead}
    {value : KList α}
    (hStores : Represents s list value)
    (c : KListCall α)
    (hFree : c.Free s.cell) :
    MemoryCall.Simulates Represents (list.call c) (value.call c) s := by
  cases c with
  | addObject object answer =>
      apply (simulates_addObject hStores _).map
      intro hObject a hAnswer
      subst hAnswer
      cases object with
      | none => exact absurd rfl hObject
      | some object => exact hFree
  | removeObjectAtIndex index =>
      exact
        (simulates_removeObjectAtIndex hStores).map
          ItemValue.item
  | removeAllObjects =>
      exact
        (simulates_removeAllObjects hStores).map
          ItemValue.number
  | getObjectAtIndex index =>
      intro Q E hValue
      show wp (getObjectAtIndex list index >>= _) Q E s
      rw [wp_bind]
      apply wp_getObjectAtIndex hStores
      exact hValue list s rfl hStores
  | containsObject object =>
      intro Q E hValue
      show wp (containsObject list object >>= _) Q E s
      rw [wp_bind]
      apply wp_containsObject hStores
      exact hValue list s rfl hStores
  | getCount =>
      intro Q E hValue
      have hCount : list.getCount = value.getCount := by
        rcases hStores with ⟨cells, hLinked, _, hItems⟩
        exact hLinked.length_items hItems
      show Q (list, .number list.getCount) s
      rw [hCount]
      exact hValue list s rfl hStores

end KListHead

theorem KList.wp_deInit
    (value : KList KObjectRef)
    (p : Process) :
    Command.wp value.deInit
      (fun _ _ => True) (fun _ _ => False) p := by
  unfold KList.deInit KList.removeAllObjects
  simp only [Command.wp_bind, Command.wp_pure, wp_kAssert,
    beq_self_eq_true, if_true]
  exact wp_releaseClients value.items p

/- On objects of the client a call on the sequence returns. -/
theorem KList.wp_call
    (value : KList KObjectRef)
    (c : KListCall KObjectRef)
    (p : Process) :
    Command.wp (value.call c)
      (fun r _ =>
        r.2 = (ItemSequence.listCall value.items c).1 ∧
          r.1.items = (ItemSequence.listCall value.items c).2)
      (fun _ _ => False) p := by
  cases c with
  | addObject object answer =>
      cases object with
      | none => exact ⟨rfl, rfl⟩
      | some object =>
          cases answer with
          | none => exact ⟨rfl, rfl⟩
          | some a => exact ⟨rfl, rfl⟩
  | removeObjectAtIndex index =>
      show _ ∧ _
      cases hItem : value.items[index]? with
      | none =>
          have hOut : value.items.length ≤ index :=
            List.getElem?_eq_none_iff.mp hItem
          exact
            ⟨congrArg ItemValue.item hItem.symm,
              (List.eraseIdx_of_length_le hOut).symm⟩
      | some item =>
          exact
            ⟨congrArg ItemValue.item hItem.symm, rfl⟩
  | removeAllObjects =>
      unfold KList.call KList.removeAllObjects
      simp only [Command.wp_bind, Command.wp_pure]
      exact
        Command.wp_mono (wp_releaseClients value.items p)
          (fun _ _ _ => ⟨rfl, rfl⟩) (fun _ _ h => h)
  | getObjectAtIndex index => exact ⟨rfl, rfl⟩
  | containsObject object =>
      cases object with
      | none => exact ⟨rfl, rfl⟩
      | some object => exact ⟨rfl, rfl⟩
  | getCount => exact ⟨rfl, rfl⟩

end KDoth

------------------------------------------------------------
-- Runs
------------------------------------------------------------

namespace KDoth

namespace KListHead

open Command

/- A chain is a doubly linked list of its items. -/
theorem Linked.doublyLinked
    {α : Type}
    {nodes : Nat → Option (KListEntry α)}
    {list : KListHead}
    {cells : List (Nat × α)}
    (hLinked : Linked nodes list cells) :
    DoublyLinked nodes list (cells.map Prod.snd) := by
  refine
    ⟨Chain.addresses cells, hLinked.nodup, ?_, ?_, ?_, ?_⟩
  · unfold Chain.addresses
    rw [List.length_map, hLinked.count]
  · rw [List.length_map, hLinked.count]
  · rw [hLinked.root]
    exact Chain.first_drop cells 0
  · intro i a hAddress
    unfold Chain.addresses at hAddress
    rw [List.getElem?_map] at hAddress
    cases hCell : cells[i]? with
    | none =>
        rw [hCell] at hAddress
        cases hAddress
    | some c =>
        rw [hCell] at hAddress
        cases hAddress
        have hLt : i < cells.length :=
          (List.getElem?_eq_some_iff.mp hCell).1
        refine
          ⟨_, hLinked.chain.get hCell,
            Chain.first_drop cells (i + 1), ?_, ?_⟩
        · show Chain.last none (cells.take i) = _
          cases i with
          | zero => rfl
          | succ i =>
              rw [if_neg (Nat.succ_ne_zero i)]
              exact Chain.last_take cells i (by omega)
        · rw [List.getElem?_map, hCell]
          rfl

/- A list that the nodes store stores these items. -/
def Stores
    (r : KListHead × NodeMemory KObjectRef)
    (items : List KObjectRef) : Prop :=
  ∃ value, Represents r.2 r.1 value ∧ value.items = items

/- Only calls that `calloc` can answer so are steps. -/
theorem free_of_step
    {r : (KListHead × NodeMemory KObjectRef)}
    {c : KListCall KObjectRef}
    (hStep : machine.step r c ≠ none) :
    c.Free r.2.cell := by
  cases c with
  | addObject object answer =>
      cases object with
      | none => trivial
      | some object =>
          cases answer with
          | none => trivial
          | some a =>
              show r.2.cell a = none
              cases hNode : r.2.cell a with
              | none => rfl
              | some entry =>
                  exfalso
                  apply hStep
                  apply MemoryCall.step_of_occupied
                  simp [call, addObject, callocEntry,
                    MemoryCall.place, hNode]
  | _ => trivial

/- One step on the nodes is the step on the sequence. -/
theorem stores_step
    (r : KListHead × NodeMemory KObjectRef)
    (items : List KObjectRef)
    (c : KListCall KObjectRef)
    (v : Except Fault (ItemValue KObjectRef))
    (r' : KListHead × NodeMemory KObjectRef)
    (hStores : Stores r items)
    (_ : True)
    (hStep : machine.step r c = some (v, r')) :
    ∃ items',
      ItemSequence.listMachine.step items c = some (v, items') ∧
        Stores r' items' := by
  rcases r with ⟨list, s⟩
  rcases hStores with ⟨value, hRepresents, hItems⟩
  subst hItems
  have hFree : c.Free s.cell := by
    apply free_of_step (r := (list, s))
    rw [hStep]
    nofun
  have hReturns :
      wp (list.call c)
        (fun r s' =>
          r.2 = (ItemSequence.listCall value.items c).1 ∧
            Stores (r.1, s')
              (ItemSequence.listCall value.items c).2)
        (fun _ _ => False) s := by
    apply simulates_call hRepresents c hFree
    apply wp_mono (value.wp_call c s.process)
    · intro r p hValue list' s' _ hNext
      exact ⟨hValue.1, r.1, hNext, hValue.2⟩
    · intro _ _ hFalse
      exact hFalse.elim
  rcases MemoryCall.step_of_wp (r := (list, s)) hReturns with
    ⟨r, s', hEnd, hValue, hNext⟩
  unfold machine at hStep
  rw [hEnd] at hStep
  cases hStep
  refine ⟨_, ?_, hNext⟩
  rw [hValue]
  rfl

/-
  Every run of calls on a new list returns what the run on
  the sequence returns, so no call faults, and ends in a
  doubly linked list of the items, whose deinitialization
  passes its assertion.
-/
theorem refines_sequence
    (address : Nat)
    (s s' : NodeMemory KObjectRef)
    (list : KListHead)
    (calls : List (KListCall KObjectRef))
    (values : List (Except Fault (ItemValue KObjectRef)))
    (hRun :
      machine.run (alloc address, s) calls =
        some (values, (list, s'))) :
    ∃ items,
      ItemSequence.listMachine.run [] calls =
          some (values, items) ∧
        DoublyLinked s'.cell list items ∧
        Returns (deInit list) s' (fun _ _ => True) := by
  have hNew : Stores (alloc address, s) [] :=
    ⟨{ address := address, items := [] },
      ⟨[], ⟨trivial, List.nodup_nil, rfl, rfl⟩, rfl, rfl⟩, rfl⟩
  have hMeets :=
    Machine.meets_of_forall (M := machine) (fun _ _ => trivial)
      (alloc address, s) calls
  rcases
      Machine.run_of_simulation stores_step hNew hMeets hRun with
    ⟨items, hSequence, value, hRepresents, hItems⟩
  refine ⟨items, hSequence, ?_, ?_⟩
  · rcases hRepresents with ⟨cells, hLinked, _, hCells⟩
    rw [← hItems, hCells]
    exact hLinked.doublyLinked
  · rw [returns_iff_wp]
    apply wp_deInit hRepresents
    apply wp_mono (value.wp_deInit s'.process)
    · intro _ _ _ _ _
      trivial
    · intro _ _ hFalse
      exact hFalse.elim

/-
  Three objects are added, the first and the last are
  removed, and one more is added at the address the first
  removal freed.
-/
theorem refines_sequence_reuse :
    ∃ (list : KListHead)
      (s : NodeMemory KObjectRef)
      (items : List KObjectRef),
      items = [⟨2⟩, ⟨4⟩] ∧
        DoublyLinked s.cell list items ∧
        Returns (deInit list) s (fun _ _ => True) := by
  have hRun :
      machine.run
        (alloc 0,
          { process := Process.initial
            cell := fun _ => none })
        [.addObject (some ⟨1⟩) (some 100),
          .addObject (some ⟨2⟩) (some 200),
          .addObject (some ⟨3⟩) (some 300),
          .addObject (some ⟨9⟩) none,
          .removeObjectAtIndex 0,
          .removeObjectAtIndex 1,
          .addObject (some ⟨4⟩) (some 100),
          .getObjectAtIndex 1] =
        some
          ([.ok (.flag true), .ok (.flag true),
            .ok (.flag true), .ok (.flag false),
            .ok (.item (some ⟨1⟩)), .ok (.item (some ⟨3⟩)),
            .ok (.flag true), .ok (.item (some ⟨4⟩))], _) :=
    rfl
  rcases refines_sequence 0 _ _ _ _ _ hRun with
    ⟨items, hSequence, hLinked, hDeInit⟩
  have hItems : items = [⟨2⟩, ⟨4⟩] := by
    have hEnd := congrArg (Option.map Prod.snd) hSequence
    exact (Option.some.inj hEnd).symm
  exact ⟨_, _, items, hItems, hLinked, hDeInit⟩

end KListHead

end KDoth
