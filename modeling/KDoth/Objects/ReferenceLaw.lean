import KDoth.Foundations.TransitionSystem
import KDoth.Objects.Containers

/-
  The reference-count law of the object graph: the count of
  every live object is the number of references to it, and an
  object is deinitialized exactly when the last reference to
  it is given up.

  Key definitions include:
    * `ObjectGraph`
    * `ObjectGraph.holders`
    * `ObjectGraph.Reach`
    * `ObjectCall`
    * `ObjectCall.Allowed`
    * `ObjectCall.run`
    * `objectGraph`

  Key theorems include:
    * `ObjectGraph.Law.wp_run`
    * `ObjectGraph.Law.step`
    * `ObjectGraph.reachable_law`
-/

------------------------------------------------------------
-- Clients
------------------------------------------------------------

namespace KDoth

/- The heap and the references that the client holds. -/
structure ObjectGraph where
  heap : Heap
  held : KObjectRef → Nat

/- The references that a live object holds. -/
def Heap.references (h : Heap) (o : KObjectRef) :
    List KObjectRef :=
  match h.objects o with
  | none => []
  | some block => block.body.references

namespace ObjectGraph

/- The references of the client and of the thread's pool. -/
def roots (s : ObjectGraph) : KObjectRef → Nat :=
  Heap.rootsOf s.held s.heap.tPool

/-
  The references to an object: those of the client and of
  the thread's pool, and those in array slots, list nodes and
  fields.
-/
def holders (s : ObjectGraph) (o : KObjectRef) : Nat :=
  s.roots o +
    ∑ i ∈ Finset.range s.heap.nextAddress,
      (s.heap.references ⟨i⟩).count o

/- Objects that the client can get hold of. -/
inductive Reach (s : ObjectGraph) : KObjectRef → Prop
| root {o : KObjectRef}
    (hRoot : 0 < s.roots o) :
    Reach s o
| edge {a o : KObjectRef}
    (hFrom : Reach s a)
    (hEdge : o ∈ s.heap.references a) :
    Reach s o

def IsArray (s : ObjectGraph) (a : KObjectRef) : Prop :=
  ∃ items, s.heap.body? a = some (.array items)

/- One more element keeps an array below 2^28 elements. -/
def Growable (s : ObjectGraph) (a : KObjectRef) : Prop :=
  ∀ items,
    s.heap.body? a = some (.array items) →
      items.length + 1 < 2 ^ 28

def IsList (s : ObjectGraph) (a : KObjectRef) : Prop :=
  ∃ items, s.heap.body? a = some (.list items)

/- One more reference does not overflow the count. -/
def Room (s : ObjectGraph) (o : KObjectRef) : Prop :=
  s.holders o + 1 < 2 ^ 32

instance
    (s : ObjectGraph)
    (o : KObjectRef) :
    Decidable (s.Room o) := by
  unfold Room
  infer_instance

end ObjectGraph

/- The calls of a client. -/
inductive ObjectCall where
  | objectNew (fields : List KObjectRef) (granted : Bool)
  | arrayNew (array items : Bool)
  | listNew (granted : Bool)
  | objectRetain (object : Option KObjectRef)
  | objectRelease (object : Option KObjectRef)
  | arrayAddObject
      (array object : Option KObjectRef) (granted : Bool)
  | arrayRemoveObjectAtIndex
      (array : Option KObjectRef) (index : Nat)
  | arrayRemoveAllObjects (array : KObjectRef)
  | listAddObject
      (list object : Option KObjectRef) (granted : Bool)
  | listRemoveObjectAtIndex
      (list : Option KObjectRef) (index : Nat)
  | listRemoveAllObjects (list : Option KObjectRef)
  | autoreleasePoolAddObject
      (object : Option KObjectRef) (answers : PoolAnswers)
  | autoreleaseMove
      (object : Option KObjectRef) (answers : PoolAnswers)
  | autoreleasePoolPop

namespace ObjectCall

/-
  What a call does to the heap and to the references that
  the client holds. A new object takes over the references
  in its fields.
-/
def run (held : KObjectRef → Nat) :
    ObjectCall → HeapCall (KObjectRef → Nat)
| .objectNew fields granted => do
    match ← Heap.objectNew (.object fields) granted with
    | none => pure held
    | some o =>
        pure (fun x => held x - fields.count x + [o].count x)
| .arrayNew array items => do
    let o ← Heap.arrayNew array items
    pure (fun x => held x + o.toList.count x)
| .listNew granted => do
    let o ← Heap.listNew granted
    pure (fun x => held x + o.toList.count x)
| .objectRetain o => do
    Heap.objectRetain o
    pure (fun x => held x + o.toList.count x)
| .objectRelease o => do
    Heap.objectRelease o
    pure (fun x => held x - o.toList.count x)
| .arrayAddObject array object granted => do
    let _ ← Heap.arrayAddObject array object granted
    pure held
| .arrayRemoveObjectAtIndex array index => do
    let _ ← Heap.arrayRemoveObjectAtIndex array index
    pure held
| .arrayRemoveAllObjects array => do
    let _ ← Heap.arrayRemoveAllObjects array
    pure held
| .listAddObject list object granted => do
    let _ ← Heap.listAddObject list object granted
    pure held
| .listRemoveObjectAtIndex list index => do
    let item ← Heap.listRemoveObjectAtIndex list index
    pure (fun x => held x + item.toList.count x)
| .listRemoveAllObjects list => do
    let _ ← Heap.listRemoveAllObjects list
    pure held
| .autoreleasePoolAddObject object answers => do
    let _ ← Heap.autoreleasePoolAddObject object answers
    pure held
| .autoreleaseMove object answers => do
    let _ ← Heap.autoreleaseMove object answers
    pure (fun x => held x - object.toList.count x)
| .autoreleasePoolPop => do
    let _ ← Heap.autoreleasePoolPop
    pure held

/-
  The client only releases references that it holds and only
  passes objects of the right class that it can reach. Arrays
  stay below 2^28 elements and references to an object below
  2^32. An array or a pool whose allocation is refused is
  excluded: that refusal does not return.
-/
def Allowed (s : ObjectGraph) : ObjectCall → Prop
| .objectNew fields _ => ∀ x, fields.count x ≤ s.held x
| .arrayNew array items => array = true → items = true
| .listNew _ => True
| .objectRetain o => ∀ x ∈ o, s.Reach x ∧ s.Room x
| .objectRelease o => ∀ x ∈ o, 0 < s.held x
| .arrayAddObject array object _ =>
    (∀ a ∈ array, s.Reach a ∧ s.IsArray a ∧ s.Growable a) ∧
      ∀ x ∈ object, s.Reach x ∧ s.Room x
| .arrayRemoveObjectAtIndex array _ =>
    ∀ a ∈ array, s.Reach a ∧ s.IsArray a
| .arrayRemoveAllObjects array =>
    s.Reach array ∧ s.IsArray array
| .listAddObject list object _ =>
    (∀ a ∈ list, s.Reach a ∧ s.IsList a) ∧
      ∀ x ∈ object, s.Reach x ∧ s.Room x
| .listRemoveObjectAtIndex list _ =>
    ∀ a ∈ list, s.Reach a ∧ s.IsList a
| .listRemoveAllObjects list =>
    ∀ a ∈ list, s.Reach a ∧ s.IsList a
| .autoreleasePoolAddObject object answers =>
    (∀ x ∈ object, s.Reach x ∧ s.Room x) ∧
      (∀ p ∈ s.heap.tPool, s.Growable p) ∧
        (answers.array = true → answers.items = true)
| .autoreleaseMove object answers =>
    (∀ x ∈ object, 0 < s.held x ∧ s.Room x) ∧
      (∀ p ∈ s.heap.tPool, s.Growable p) ∧
        (answers.array = true → answers.items = true)
| .autoreleasePoolPop => True

end ObjectCall

/- The object graph of one thread, from an empty heap. -/
def objectGraph : TransitionSystem ObjectGraph ObjectCall where
  Init s := s.heap = Heap.initial ∧ ∀ o, s.held o = 0
  step s c :=
    match c.run s.held s.heap with
    | .ok held heap => some { heap := heap, held := held }
    | .error _ _ => none

end KDoth

------------------------------------------------------------
-- The Law
------------------------------------------------------------

namespace KDoth

namespace ObjectGraph

open Command

/- The client and the pool account for all references. -/
def Law (s : ObjectGraph) : Prop :=
  Heap.Accounted s.held [] s.heap

/- With nothing pinned the graph has the references. -/
theorem out_eq
    {base : KObjectRef → Nat}
    {h : Heap}
    {g : RefGraph KObjectRef}
    {pending : List KObjectRef}
    (hAcc :
      Heap.Accounts (fun _ => False) base h g pending)
    {a : KObjectRef}
    (hNode : a ∈ g.nodes) :
    g.out a = h.references a := by
  rcases hAcc.models.read hNode with ⟨block, hBlock, hOut⟩
  rw [hOut id, Heap.references, hBlock]

/- A sum over all addresses is one over the nodes. -/
theorem sum_addresses
    {f : KObjectRef → Nat}
    {n : Nat}
    {nodes : Finset KObjectRef}
    (hBounded : ∀ a ∈ nodes, a.address < n)
    (hNone : ∀ a, a ∉ nodes → f a = 0) :
    ∑ i ∈ Finset.range n, f ⟨i⟩ = ∑ a ∈ nodes, f a := by
  have hInjective : Function.Injective KObjectRef.mk := by
    intro a b hEq
    cases hEq
    rfl
  have hSum :
      ∑ i ∈ Finset.range n, f ⟨i⟩ =
        ∑ a ∈ (Finset.range n).map
            ⟨KObjectRef.mk, hInjective⟩,
          f a := by
    rw [Finset.sum_map]
    rfl
  have hSubset :
      nodes ⊆
        (Finset.range n).map ⟨KObjectRef.mk, hInjective⟩ := by
    intro a ha
    apply Finset.mem_map.mpr
    exact
      ⟨a.address, Finset.mem_range.mpr (hBounded a ha), rfl⟩
  rw [hSum, ← Finset.sum_subset hSubset]
  intro a _ hNot
  exact hNone a hNot

/- The references in the heap are the edges of the graph. -/
theorem holders_eq
    {s : ObjectGraph}
    {base : KObjectRef → Nat}
    {g : RefGraph KObjectRef}
    {pending : List KObjectRef}
    (hAcc :
      Heap.Accounts (fun _ => False) base s.heap g pending)
    (o : KObjectRef) :
    s.holders o = s.roots o + g.inDegree o := by
  have hNone :
      ∀ a, a ∉ g.nodes →
        (s.heap.references a).count o = 0 := by
    intro a hNot
    have hFreed : s.heap.objects a = none := by
      rw [← Option.not_isSome_iff_eq_none, ← hAcc.live a]
      exact hNot
    rw [Heap.references, hFreed]
    rfl
  unfold holders
  rw [sum_addresses hAcc.bounded hNone]
  congr 1
  apply Finset.sum_congr rfl
  intro a ha
  rw [out_eq hAcc ha]

/- What the client can reach is rooted. -/
theorem Reach.rooted
    {s : ObjectGraph}
    {g : RefGraph KObjectRef}
    (hAcc : Heap.Accounts (fun _ => False) s.roots s.heap g [])
    {o : KObjectRef}
    (hReach : s.Reach o) :
    g.Rooted s.roots o := by
  induction hReach with
  | root hRoot => exact .root hRoot
  | edge hFrom hEdge ih =>
      have hNode := hAcc.balanced.mem_of_rooted ih
      rw [← out_eq hAcc hNode] at hEdge
      exact .edge ih hNode hEdge

/- Room for one more reference. -/
theorem Room.count
    {s : ObjectGraph}
    {g : RefGraph KObjectRef}
    (hAcc : Heap.Accounts (fun _ => False) s.roots s.heap g [])
    {o : KObjectRef}
    (hRoom : s.Room o)
    (hNode : o ∈ g.nodes) :
    s.heap.count o + 1 < 2 ^ 32 := by
  have hCount := hAcc.balanced.counts o hNode
  unfold Room at hRoom
  rw [holders_eq hAcc] at hRoom
  simp only [List.count_nil] at hCount
  omega

end ObjectGraph

end KDoth

------------------------------------------------------------
-- Calls Keep The Law
------------------------------------------------------------

namespace KDoth

namespace ObjectGraph

open Command Heap

variable {s : ObjectGraph} {c : ObjectCall}

/- What is settled keeps the law, up to pending references. -/
theorem law_of_settled
    {held' : KObjectRef → Nat}
    {pending : List KObjectRef}
    {h' : Heap}
    (hSettled :
      Accounts.Settled s.roots s.heap.tPool pending h')
    (hHeld : ∀ x, held' x = s.held x + pending.count x) :
    Law { heap := h', held := held' } := by
  have hAccounted : Accounted s.held pending h' :=
    Accounted.of_settled hSettled
  apply hAccounted.shift
  intro x
  rw [List.count_nil, Nat.add_zero]
  exact hHeld x

/- The client gives up references before they are released. -/
theorem Law.give
    (hLaw : s.Law)
    {l : List KObjectRef}
    (hHeld : ∀ x, l.count x ≤ s.held x) :
    Accounted (fun x => s.held x - l.count x) l s.heap := by
  apply Accounted.shift hLaw
  intro x
  have hx := hHeld x
  rw [List.count_nil]
  omega

theorem count_toList_le
    {o : Option KObjectRef}
    (hHeld : ∀ x ∈ o, 0 < s.held x)
    (x : KObjectRef) :
    o.toList.count x ≤ s.held x := by
  cases o with
  | none => simp
  | some y =>
      rw [Option.toList_some, List.count_singleton]
      by_cases hSame : y = x
      · have hy := hHeld y rfl
        rw [hSame] at hy
        simp only [hSame, beq_self_eq_true, if_true]
        omega
      · simp [hSame]

/- Creating an object. -/
theorem Law.wp_create
    {held : KObjectRef → Nat}
    {h : Heap}
    (body : KObjectBody)
    (hAccounted : Accounted held body.references h)
    (granted : Bool) :
    wp (Heap.objectNew body granted)
      (fun r h' =>
        (r = none → h' = h) ∧
          ∀ o, r = some o →
            granted = true ∧ Accounted held [o] h')
      (fun _ _ => False) h := by
  rcases hAccounted with ⟨g, hAcc⟩
  rw [← List.append_nil body.references] at hAcc
  apply wp_imp (Accounts.wp_objectNew body [] hAcc granted)
  intro r h' hAfter
  refine ⟨hAfter.1, ?_⟩
  intro o hSome
  rcases hAfter.2 o hSome with
    ⟨hGranted, _, hPool, _, hNew⟩
  rw [← hPool] at hNew
  exact ⟨hGranted, _, hNew⟩

/- A new object goes to the client. -/
theorem Law.wp_created
    (hLaw : s.Law)
    {call : HeapCall (Option KObjectRef)}
    (hCall :
      wp call
        (fun r h' =>
          (r = none → h' = s.heap) ∧
            ∀ o, r = some o → Accounted s.held [o] h')
        (fun _ _ => False) s.heap) :
    wp
      (do
        let o ← call
        pure (fun x => s.held x + o.toList.count x))
      (fun held' h' => Law { heap := h', held := held' })
      (fun _ _ => False) s.heap := by
  rw [wp_bind]
  apply wp_imp hCall
  intro r h' hAfter
  cases r with
  | none =>
      have hSame : h' = s.heap := hAfter.1 rfl
      rw [hSame]
      exact hLaw
  | some o =>
      apply (hAfter.2 o rfl).shift
      intro x
      rw [List.count_nil, Nat.add_zero]
      rfl

/- `KArrayNew` whose allocation is not refused. -/
theorem Law.wp_arrayNew
    (hLaw : s.Law)
    {array items : Bool}
    (hItems : array = true → items = true) :
    wp (Heap.arrayNew array items)
      (fun r h' =>
        (r = none → h' = s.heap) ∧
          ∀ o, r = some o → Accounted s.held [o] h')
      (fun _ _ => False) s.heap := by
  unfold Heap.arrayNew
  rw [wp_bind]
  apply wp_imp (Law.wp_create (.array []) hLaw array)
  intro r h' hAfter
  cases r with
  | none => exact ⟨hAfter.1, nofun⟩
  | some o =>
      rcases hAfter.2 o rfl with ⟨hGranted, hNew⟩
      rw [hItems hGranted]
      refine ⟨nofun, ?_⟩
      intro other hEq
      cases hEq
      exact hNew

/-
  A call that settles the heap, up to references that go to
  the client.
-/
theorem Law.wp_settled
    {α : Type}
    {call : HeapCall α}
    {pending : α → List KObjectRef}
    {held' : α → KObjectRef → Nat}
    (hCall :
      wp call
        (fun a =>
          Accounts.Settled s.roots s.heap.tPool (pending a))
        (fun _ _ => False) s.heap)
    (hHeld :
      ∀ a x, held' a x = s.held x + (pending a).count x) :
    wp
      (do
        let a ← call
        pure (held' a))
      (fun held' h' => Law { heap := h', held := held' })
      (fun _ _ => False) s.heap := by
  rw [wp_bind]
  apply wp_imp hCall
  intro a h' hAfter
  exact law_of_settled hAfter (hHeld a)

/- The client gives up one reference. -/
theorem Law.wp_release
    (hLaw : s.Law)
    {o : KObjectRef}
    (hHeld : 0 < s.held o) :
    wp (Heap.objectRelease (some o))
      (fun _ h' =>
        Law
          { heap := h'
            held := fun x => s.held x - [o].count x })
      (fun _ _ => False) s.heap := by
  have hGive :
      Accounted (fun x => s.held x - [o].count x) [o]
        s.heap := by
    apply hLaw.give
    apply count_toList_le (o := some o)
    intro x hx
    cases hx
    exact hHeld
  exact hGive.wp_objectRelease

/- What the client can reach is live, with room to retain. -/
theorem Room.live
    {g : RefGraph KObjectRef}
    (hAcc : Heap.Accounts (fun _ => False) s.roots s.heap g [])
    {o : KObjectRef}
    (hRoom : s.Room o)
    (hReach : s.Reach o) :
    o ∈ g.nodes ∧ s.heap.count o + 1 < 2 ^ 32 := by
  have hNode :=
    hAcc.balanced.mem_of_rooted (hReach.rooted hAcc)
  exact ⟨hNode, hRoom.count hAcc hNode⟩

/- A new object takes over what the client held. -/
theorem Law.wp_objectNew
    (hLaw : s.Law)
    {fields : List KObjectRef}
    (hHeld : ∀ x, fields.count x ≤ s.held x)
    (granted : Bool) :
    wp ((ObjectCall.objectNew fields granted).run s.held)
      (fun held' h' => Law { heap := h', held := held' })
      (fun _ _ => False) s.heap := by
  have hGive := hLaw.give hHeld
  have hCreate := Law.wp_create (.object fields) hGive granted
  rw [ObjectCall.run, wp_bind]
  apply wp_imp hCreate
  intro r h' hAfter
  cases r with
  | none =>
      have hSame : h' = s.heap := hAfter.1 rfl
      rw [hSame]
      exact hLaw
  | some o =>
      apply (hAfter.2 o rfl).2.shift
      intro x
      rw [List.count_nil, Nat.add_zero]

/- A retained object gives the client one more reference. -/
theorem Law.wp_retain
    (hLaw : s.Law)
    {o : KObjectRef}
    (hReach : s.Reach o)
    (hRoom : s.Room o) :
    wp ((ObjectCall.objectRetain (some o)).run s.held)
      (fun held' h' => Law { heap := h', held := held' })
      (fun _ _ => False) s.heap := by
  rcases hLaw with ⟨g, hAcc⟩
  rcases hRoom.live hAcc hReach with ⟨hNode, hCount⟩
  have hRetain :
      wp (Heap.objectRetain (some o))
        (fun _ => Accounts.Settled s.roots s.heap.tPool [o])
        (fun _ _ => False) s.heap := by
    apply wp_imp (hAcc.wp_objectRetain hNode hCount)
    intro _ h' hAfter
    exact ⟨⟨g, hAfter.1⟩, hAfter.2.2⟩
  exact Law.wp_settled hRetain (fun _ _ => rfl)

/- A reference of the client moves to the pool, or is lost. -/
theorem Law.wp_autoreleaseMove
    (hLaw : s.Law)
    {o : KObjectRef}
    (hHeld : 0 < s.held o)
    (hRoom : s.Room o)
    {answers : PoolAnswers}
    (hAnswers : answers.array = true → answers.items = true) :
    wp ((ObjectCall.autoreleaseMove (some o) answers).run s.held)
      (fun held' h' => Law { heap := h', held := held' })
      (fun _ _ => False) s.heap := by
  rcases hLaw with ⟨g, hAcc⟩
  have hRoot : 0 < s.roots o := by
    unfold roots rootsOf
    omega
  rcases hRoom.live hAcc (.root hRoot) with ⟨hNode, hCount⟩
  simp only [ObjectCall.run, autoreleaseMove, wp_bind]
  apply wp_imp
    (Accounts.wp_autoreleasePoolAddObject hAcc hNode hCount
      answers hAnswers)
  intro added h' hAfter
  have hMid : Law { heap := h', held := s.held } := hAfter
  apply wp_imp (hMid.wp_release hHeld)
  intro _ h'' hLast
  cases added with
  | true => exact hLast
  | false => exact hLast

/- The pool of the thread, if there is one, is emptied. -/
theorem Law.wp_autoreleasePoolPop
    (hLaw : s.Law) :
    wp (ObjectCall.autoreleasePoolPop.run s.held)
      (fun held' h' => Law { heap := h', held := held' })
      (fun _ _ => False) s.heap := by
  rcases hLaw with ⟨g, hAcc⟩
  simp only [ObjectCall.run, autoreleasePoolPop, wp_bind, wp_get]
  cases hPool : s.heap.tPool with
  | none => exact ⟨g, hAcc⟩
  | some p =>
      rcases hAcc.pool p hPool with ⟨hBase, items, hBody⟩
      apply wp_imp
        (hAcc.wp_arrayRemoveAllObjects (.root hBase) hBody)
      intro _ h' hAfter
      apply law_of_settled hAfter
      intro x
      rw [List.count_nil, Nat.add_zero]

/-
  Every allowed call returns and keeps the law, by cases on
  the call.
-/
theorem Law.wp_run
    (hLaw : s.Law)
    (hAllowed : c.Allowed s) :
    wp (c.run s.held)
      (fun held' h' => Law { heap := h', held := held' })
      (fun _ _ => False) s.heap := by
  rcases hLaw with ⟨g, hAcc⟩
  have hLaw : s.Law := ⟨g, hAcc⟩
  have hZero :
      ∀ x, s.held x = s.held x + ([] : List _).count x := by
    intro x
    simp
  cases c with
  | objectNew fields granted =>
      exact hLaw.wp_objectNew hAllowed granted
  | arrayNew array items =>
      exact hLaw.wp_created (hLaw.wp_arrayNew hAllowed)
  | listNew granted =>
      apply hLaw.wp_created
      apply wp_imp (Law.wp_create (.list []) hLaw granted)
      intro r h' hAfter
      exact ⟨hAfter.1, fun o ho => (hAfter.2 o ho).2⟩
  | objectRetain o =>
      cases o with
      | none => exact hLaw
      | some o =>
          rcases hAllowed o rfl with ⟨hReach, hRoom⟩
          exact hLaw.wp_retain hReach hRoom
  | objectRelease o =>
      cases o with
      | none => exact hLaw
      | some o =>
          rw [ObjectCall.run, wp_bind]
          exact hLaw.wp_release (hAllowed o rfl)
  | arrayAddObject array object granted =>
      cases array with
      | none => exact hLaw
      | some a =>
          cases object with
          | none => exact hLaw
          | some o =>
              rcases hAllowed.1 a rfl with
                ⟨hArray, ⟨items, hBody⟩, _⟩
              rcases hAllowed.2 o rfl with ⟨hReach, hRoom⟩
              rcases hRoom.live hAcc hReach with ⟨hNode, hCount⟩
              exact
                Law.wp_settled
                  (hAcc.wp_arrayAddObject (hArray.rooted hAcc)
                    hBody hNode hCount granted)
                  (fun _ => hZero)
  | arrayRemoveObjectAtIndex array index =>
      cases array with
      | none => exact hLaw
      | some a =>
          rcases hAllowed a rfl with ⟨hArray, items, hBody⟩
          exact
            Law.wp_settled
              (hAcc.wp_arrayRemoveObjectAtIndex
                (hArray.rooted hAcc) hBody index)
              (fun _ => hZero)
  | arrayRemoveAllObjects array =>
      rcases hAllowed with ⟨hArray, items, hBody⟩
      exact
        Law.wp_settled
          (hAcc.wp_arrayRemoveAllObjects (hArray.rooted hAcc)
            hBody)
          (fun _ => hZero)
  | listAddObject list object granted =>
      cases list with
      | none => exact hLaw
      | some a =>
          cases object with
          | none => exact hLaw
          | some o =>
              rcases hAllowed.1 a rfl with
                ⟨hList, items, hBody⟩
              rcases hAllowed.2 o rfl with ⟨hReach, hRoom⟩
              rcases hRoom.live hAcc hReach with ⟨hNode, hCount⟩
              exact
                Law.wp_settled
                  (hAcc.wp_listAddObject (hList.rooted hAcc)
                    hBody hNode hCount granted)
                  (fun _ => hZero)
  | listRemoveObjectAtIndex list index =>
      cases list with
      | none => exact hLaw
      | some a =>
          rcases hAllowed a rfl with ⟨hList, items, hBody⟩
          exact
            Law.wp_settled
              (hAcc.wp_listRemoveObjectAtIndex
                (hList.rooted hAcc) hBody index)
              (fun _ _ => rfl)
  | listRemoveAllObjects list =>
      cases list with
      | none => exact hLaw
      | some a =>
          rcases hAllowed a rfl with ⟨hList, items, hBody⟩
          exact
            Law.wp_settled
              (hAcc.wp_listRemoveAllObjects (hList.rooted hAcc)
                hBody)
              (fun _ => hZero)
  | autoreleasePoolAddObject object answers =>
      rcases hAllowed with ⟨hObject, _, hAnswers⟩
      cases object with
      | none => exact hLaw
      | some o =>
          rcases hObject o rfl with ⟨hReach, hRoom⟩
          rcases hRoom.live hAcc hReach with ⟨hNode, hCount⟩
          rw [ObjectCall.run, wp_bind]
          exact
            Accounts.wp_autoreleasePoolAddObject hAcc hNode
              hCount answers hAnswers
  | autoreleaseMove object answers =>
      rcases hAllowed with ⟨hObject, _, hAnswers⟩
      cases object with
      | none => exact hLaw
      | some o =>
          rcases hObject o rfl with ⟨hHeld, hRoom⟩
          exact hLaw.wp_autoreleaseMove hHeld hRoom hAnswers
  | autoreleasePoolPop => exact hLaw.wp_autoreleasePoolPop

end ObjectGraph

end KDoth

------------------------------------------------------------
-- Main Result
------------------------------------------------------------

namespace KDoth

namespace ObjectGraph

open Heap

/- The client that holds nothing of an empty heap. -/
def initial : ObjectGraph where
  heap := Heap.initial
  held := fun _ => 0

theorem Law.of_init
    {s : ObjectGraph}
    (hInit : objectGraph.Init s) :
    s.Law := by
  rcases hInit with ⟨hHeap, hHeld⟩
  have hRoots : ∀ o, rootsOf s.held s.heap.tPool o = 0 := by
    intro o
    rw [rootsOf, hHeld, hHeap]
    rfl
  refine ⟨{ nodes := ∅, out := fun _ => [] }, ?_⟩
  constructor
  · constructor
    · intro o ho
      cases ho
    · constructor
      · intro o ho
        cases ho
      · intro o ho
        cases ho
      · intro o _
        rw [hRoots]
        rfl
    · intro o ho
      exact ho.elim
  · intro o
    rw [hHeap]
    simp [Heap.initial]
  · intro o ho
    cases ho
  · rw [hHeap]
    exact List.nodup_nil
  · intro o
    rw [hHeap]
    simp [Heap.initial]
  · intro p hp
    rw [hHeap] at hp
    cases hp

/- Allowed calls are steps, and they keep the law. -/
theorem Law.step
    {s : ObjectGraph}
    (hLaw : s.Law)
    {c : ObjectCall}
    (hAllowed : c.Allowed s) :
    ∃ s', objectGraph.step s c = some s' ∧ s'.Law := by
  have hRun := hLaw.wp_run hAllowed
  unfold Command.wp at hRun
  cases hEq : c.run s.held s.heap with
  | ok held heap =>
      rw [hEq] at hRun
      exact
        ⟨{ heap := heap, held := held },
          by simp [objectGraph, hEq], hRun⟩
  | error stop heap =>
      rw [hEq] at hRun
      exact hRun.elim

/- Allowed calls keep the law. -/
theorem Law.of_reachable
    {s : ObjectGraph}
    (hReach :
      objectGraph.ReachableWhere (fun s c => c.Allowed s) s) :
    s.Law := by
  apply hReach.invariant
  · intro s hInit
    exact Law.of_init hInit
  · intro s c s' hLaw hAllowed hStep
    rcases hLaw.step hAllowed with ⟨next, hNext, hKept⟩
    rw [hNext] at hStep
    cases hStep
    exact hKept

/-
  In every state that allowed calls reach, the count of a
  live object is the number of references to it, every object
  without a reference was deinitialized exactly once and no
  other, exactly the deinitialized ones are freed, and every
  allowed call returns.
-/
theorem reachable_law
    {s : ObjectGraph}
    (hReach :
      objectGraph.ReachableWhere (fun s c => c.Allowed s) s) :
    (∀ o block,
        s.heap.objects o = some block →
          block.refCount.toNat = s.holders o) ∧
      s.heap.deInits.Nodup ∧
      (∀ o,
        o.address < s.heap.nextAddress →
          (o ∈ s.heap.deInits ↔ s.holders o = 0)) ∧
      (∀ o,
        (s.heap.objects o).isSome = true ↔
          o.address < s.heap.nextAddress ∧
            o ∉ s.heap.deInits) ∧
      ∀ c : ObjectCall,
        c.Allowed s → ∃ s', objectGraph.step s c = some s' := by
  rcases Law.of_reachable hReach with ⟨g, hAcc⟩
  have hHolders := holders_eq hAcc
  have hNone :
      ∀ o, s.heap.objects o = none ↔ o ∉ g.nodes := by
    intro o
    rw [hAcc.live o]
    cases s.heap.objects o <;> simp
  refine ⟨?_, hAcc.nodup, ?_, ?_, ?_⟩
  · intro o block hBlock
    have hNode : o ∈ g.nodes := by
      rw [hAcc.live o, hBlock]
      rfl
    have hCount := hAcc.balanced.counts o hNode
    rw [List.count_nil, Nat.add_zero] at hCount
    rw [hHolders o]
    have hBase : rootsOf s.held s.heap.tPool o = s.roots o :=
      rfl
    rw [← hBase, ← hCount]
    simp [count, hBlock]
  · intro o hOld
    rw [hAcc.dead o, hNone o, hHolders o]
    constructor
    · intro hDead
      have hClosed := hAcc.balanced.closed o hDead.2
      rw [List.count_nil, Nat.add_zero] at hClosed
      exact hClosed
    · intro hZero
      refine ⟨hOld, ?_⟩
      intro hNode
      have hPositive := hAcc.balanced.positive o hNode
      have hCount := hAcc.balanced.counts o hNode
      rw [List.count_nil, Nat.add_zero] at hCount
      have hBase :
          rootsOf s.held s.heap.tPool o = s.roots o := rfl
      omega
  · intro o
    rw [hAcc.dead o, hNone o, ← hAcc.live o]
    constructor
    · intro hNode
      exact ⟨hAcc.bounded o hNode, fun h => h.2 hNode⟩
    · intro hBoth
      by_contra hNot
      exact hBoth.2 ⟨hBoth.1, hNot⟩
  · intro c hAllowed
    have hLaw : s.Law := ⟨g, hAcc⟩
    rcases hLaw.step hAllowed with ⟨next, hNext, _⟩
    exact ⟨next, hNext⟩

/- A list that is released with the only object in it. -/
theorem reachable_law_cascade :
    ∃ s,
      objectGraph.exec initial
          [.listNew true, .objectNew [] true,
            .listAddObject (some ⟨0⟩) (some ⟨1⟩) true,
            .objectRelease (some ⟨1⟩),
            .objectRelease (some ⟨0⟩)] = some s ∧
        s.heap.deInits = [⟨0⟩, ⟨1⟩] ∧ s.heap.deInits.Nodup ∧
          s.holders ⟨1⟩ = 0 := by
  have hStart :
      objectGraph.ReachableWhere (fun s c => c.Allowed s)
        initial :=
    .init ⟨rfl, fun _ => rfl⟩
  have hList :=
    hStart.step (l := ObjectCall.listNew true) trivial rfl
  have hObject :=
    hList.step (l := ObjectCall.objectNew [] true)
      (by
        intro x
        simp) rfl
  have hAdded :=
    hObject.step
      (l := ObjectCall.listAddObject (some ⟨0⟩) (some ⟨1⟩) true)
      (by
        constructor
        · intro a ha
          cases ha
          exact ⟨.root (by decide), [], rfl⟩
        · intro x hx
          cases hx
          exact ⟨.root (by decide), by decide⟩) rfl
  have hShared :=
    hAdded.step (l := ObjectCall.objectRelease (some ⟨1⟩))
      (by
        intro x hx
        cases hx
        decide) rfl
  have hReleased :=
    hShared.step (l := ObjectCall.objectRelease (some ⟨0⟩))
      (by
        intro x hx
        cases hx
        decide) rfl
  have hLaw := reachable_law hReleased
  exact
    ⟨_, rfl, rfl, hLaw.2.1,
      (hLaw.2.2.1 ⟨1⟩ (by decide)).mp (by decide)⟩

end ObjectGraph

end KDoth
