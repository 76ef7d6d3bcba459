import KDoth.Collections.KListEntry

/-
  What each call on the nodes of a list does to its chain.
  The calls are compared with those on the sequence of the
  items: whatever a call on the sequence ensures, the call on
  the nodes ensures.

  Key definitions include:
    * `KListHead.Linked`
    * `KListHead.Represents`

  Key theorems include:
    * `KListHead.simulates_addObject`
    * `KListHead.simulates_removeObjectAtIndex`
    * `KListHead.simulates_removeAllObjects`
    * `KListHead.wp_getObjectAtIndex`
    * `KListHead.wp_containsObject`
-/

------------------------------------------------------------
-- Allocating Nodes
------------------------------------------------------------

namespace KDoth

open Command MemoryCall

variable {α : Type} {s : NodeMemory α} {a : Nat}
variable {E : Fault → NodeMemory α → Prop}

theorem wp_callocEntry_none
    {Q : Option Nat → NodeMemory α → Prop} :
    wp (callocEntry none) Q E s ↔
      Q none
        (s.setProcess (s.process.requested .listEntry)) :=
  Iff.rfl

theorem wp_callocEntry_some
    {Q : Option Nat → NodeMemory α → Prop}
    (hFree : s.cell a = none) :
    wp (callocEntry (some a)) Q E s ↔
      Q (some a)
        ((s.setProcess
            (s.process.requested .listEntry)).setCell a
          (some
            { prev := none, next := none, item := none })) := by
  have hStill :
      (s.setProcess
        (s.process.requested .listEntry)).cell a = none :=
    hFree
  simp only [callocEntry, wp_bind, wp_requested,
    wp_place hStill, wp_pure]

end KDoth

------------------------------------------------------------
-- Linked Lists
------------------------------------------------------------

namespace KDoth

/- A node of a list that is in order. -/
def listEntry
    {α : Type}
    (prev next : Option Nat)
    (item : α) : KListEntry α where
  prev := prev
  next := next
  item := some item

namespace KListHead

variable {α : Type}

/-
  The record leads to a chain of that many nodes, each at an
  address of its own, with the items of the cells.
-/
structure Linked
    (nodes : Nat → Option (KListEntry α))
    (list : KListHead)
    (cells : List (Nat × α)) : Prop where
  chain : Chain listEntry nodes none cells none
  nodup : (Chain.addresses cells).Nodup
  root : list.root = Chain.first cells none
  count : list.count = cells.length

/- The nodes store the sequence of a list. -/
def Represents
    (s : NodeMemory α)
    (list : KListHead)
    (value : KList α) : Prop :=
  ∃ cells,
    Linked s.cell list cells ∧
      value.address = list.address ∧
      value.items = cells.map Prod.snd

end KListHead

end KDoth

------------------------------------------------------------
-- Walks
------------------------------------------------------------

namespace KDoth

namespace KListHead

open Command MemoryCall

variable {α : Type} {s : NodeMemory α}
variable {E : Fault → NodeMemory α → Prop}
variable {p : Option Nat}

/- The walk to the end stops at the last cell. -/
theorem wp_lastEntry
    {Q : Nat → NodeMemory α → Prop}
    {turns : Nat}
    {c : Nat × α}
    {cells : List (Nat × α)}
    (hChain : Chain listEntry s.cell p (c :: cells) none)
    (hTurns : cells.length < turns)
    (hPost :
      ∀ a, Chain.last p (c :: cells) = some a → Q a s) :
    wp (lastEntry turns c.1) Q E s := by
  induction turns generalizing p c cells with
  | zero => omega
  | succ turns ih =>
      have hNode := hChain.1
      simp only [lastEntry, wp_bind, wp_load hNode]
      cases cells with
      | nil => exact hPost c.1 rfl
      | cons d cells =>
          apply ih hChain.2
          · simp only [List.length_cons] at hTurns
            omega
          · exact hPost

theorem wp_lastEntry_concat
    {Q : Nat → NodeMemory α → Prop}
    {turns root : Nat}
    {l : List (Nat × α)}
    {c : Nat × α}
    (hChain : Chain listEntry s.cell p (l ++ [c]) none)
    (hRoot : Chain.first (l ++ [c]) none = some root)
    (hTurns : l.length < turns)
    (hPost : Q c.1 s) :
    wp (lastEntry turns root) Q E s := by
  have hLast :
      ∀ a, Chain.last p (l ++ [c]) = some a → Q a s := by
    intro a hEq
    rw [Chain.last_concat] at hEq
    cases hEq
    exact hPost
  cases l with
  | nil =>
      cases hRoot
      exact wp_lastEntry hChain hTurns hLast
  | cons d l =>
      cases hRoot
      apply wp_lastEntry hChain _ hLast
      simpa using hTurns

/- The walk to an index stops at the cell, if there is one. -/
theorem wp_entryAt
    {Q : Option Nat → NodeMemory α → Prop}
    {turns i index : Nat}
    {cells : List (Nat × α)}
    (hChain : Chain listEntry s.cell p cells none)
    (hTurns : cells.length ≤ turns)
    (hIndex : i ≤ index)
    (hPost : Q (cells[index - i]?.map Prod.fst) s) :
    wp (entryAt index turns i (Chain.first cells none))
      Q E s := by
  induction cells generalizing p turns i with
  | nil =>
      cases turns <;> exact hPost
  | cons c cells ih =>
      cases turns with
      | zero => cases hTurns
      | succ turns =>
          show wp (if i = index then _ else _) Q E s
          by_cases hHere : i = index
          · subst hHere
            rw [if_pos rfl]
            rw [Nat.sub_self] at hPost
            exact hPost
          · rw [if_neg hHere]
            simp only [wp_bind, wp_load hChain.1]
            have hMinus : index - i = index - (i + 1) + 1 := by
              omega
            rw [hMinus, List.getElem?_cons_succ] at hPost
            exact
              ih hChain.2 (Nat.le_of_succ_le_succ hTurns)
                (by omega) hPost

/- The walk that looks for an item finds it if it is there. -/
theorem wp_anyEntry
    [DecidableEq α]
    {Q : Bool → NodeMemory α → Prop}
    {object : α}
    {turns : Nat}
    {cells : List (Nat × α)}
    (hChain : Chain listEntry s.cell p cells none)
    (hTurns : cells.length ≤ turns)
    (hPost : Q (decide (object ∈ cells.map Prod.snd)) s) :
    wp (anyEntry object turns (Chain.first cells none))
      Q E s := by
  induction cells generalizing p turns with
  | nil =>
      cases turns <;> exact hPost
  | cons c cells ih =>
      cases turns with
      | zero => cases hTurns
      | succ turns =>
          show wp (load c.1 >>= _) Q E s
          simp only [wp_bind, wp_load hChain.1, wp_ite]
          by_cases hHere :
              (listEntry p (Chain.first cells none) c.2).item =
                some object
          · have hItem : c.2 = object := by
              simpa [listEntry] using hHere
            rw [if_pos hHere]
            simpa [hItem] using hPost
          · have hItem : object ≠ c.2 := by
              intro hSame
              apply hHere
              rw [hSame]
              rfl
            rw [if_neg hHere]
            have hRest :
                object ∈ (c :: cells).map Prod.snd ↔
                  object ∈ cells.map Prod.snd := by
              simp [hItem]
            simp only [hRest] at hPost
            exact
              ih hChain.2 (Nat.le_of_succ_le_succ hTurns) hPost

/-
  The walk that releases and frees visits the items in order
  and leaves no cell in memory.
-/
theorem wp_releaseEntries
    [KObject α]
    {Q : Nat → NodeMemory α → Prop}
    {turns removed : Nat}
    {cells : List (Nat × α)}
    (hChain : Chain listEntry s.cell p cells none)
    (hNodup : (Chain.addresses cells).Nodup)
    (hTurns : cells.length ≤ turns)
    (hPost :
      wp (forM (cells.map Prod.snd) KObject.release)
        (fun _ p =>
          ∀ s', s'.process = p → Q (removed + cells.length) s')
        (fun e p => ∀ s', s'.process = p → E (.stop e) s')
        s.process) :
    wp (releaseEntries turns (Chain.first cells none) removed)
      Q E s := by
  induction cells generalizing p s turns removed with
  | nil =>
      cases turns <;> exact hPost s rfl
  | cons c cells ih =>
      cases turns with
      | zero => cases hTurns
      | succ turns =>
          rw [List.map_cons, List.forM_cons, wp_bind] at hPost
          show wp (load c.1 >>= _) Q E s
          simp only [wp_bind, wp_load hChain.1, wp_lift]
          have hRelease :
              KObject.releaseOrNull
                  (listEntry p (Chain.first cells none)
                    c.2).item =
                KObject.release c.2 := rfl
          rw [hRelease]
          apply wp_mono hPost
          · intro _ q hRest
            have hLive :
                (s.setProcess q).cell c.1 =
                  some
                    (listEntry p
                      (Chain.first cells none) c.2) :=
              hChain.1
            rw [wp_free hLive]
            have hNot : c.1 ∉ Chain.addresses cells :=
              (List.nodup_cons.mp hNodup).1
            apply ih
              (hChain.2.update hNot)
              (List.nodup_cons.mp hNodup).2
              (Nat.le_of_succ_le_succ hTurns)
            apply wp_mono hRest
            · intro _ q' hDone s' hProcess
              have hCount :
                  removed + 1 + cells.length =
                    removed + (c :: cells).length := by
                simp only [List.length_cons]
                omega
              rw [hCount]
              exact hDone s' hProcess
            · intro e q' hStop s' hProcess
              exact hStop s' hProcess
          · intro e q hStop
            exact hStop _ rfl

end KListHead

end KDoth

------------------------------------------------------------
-- Reading
------------------------------------------------------------

namespace KDoth

namespace KListHead

open Command MemoryCall

variable {α : Type} {s : NodeMemory α}
variable {E : Fault → NodeMemory α → Prop}
variable {list : KListHead} {value : KList α}

theorem Linked.length_items
    {cells : List (Nat × α)}
    (hLinked : Linked s.cell list cells)
    (hItems : value.items = cells.map Prod.snd) :
    list.count = value.items.length := by
  rw [hLinked.count, hItems, List.length_map]

theorem wp_getObjectAtIndex
    {Q : Option α → NodeMemory α → Prop}
    {index : Nat}
    (hStores : Represents s list value)
    (hPost : Q (value.getObjectAtIndex index) s) :
    wp (getObjectAtIndex list index) Q E s := by
  rcases hStores with ⟨cells, hLinked, _, hItems⟩
  unfold KList.getObjectAtIndex at hPost
  rw [hItems, List.getElem?_map] at hPost
  unfold getObjectAtIndex
  rw [wp_bind, hLinked.root]
  refine
    wp_entryAt hLinked.chain
      (Nat.le_of_eq hLinked.count.symm)
      (Nat.zero_le index) ?_
  rw [Nat.sub_zero]
  cases hCell : cells[index]? with
  | none =>
      rw [hCell] at hPost
      exact hPost
  | some c =>
      rw [hCell] at hPost
      show wp (load c.1 >>= _) Q E s
      rw [wp_bind, wp_load (hLinked.chain.get hCell)]
      exact hPost

theorem wp_containsObject
    [DecidableEq α]
    {Q : Bool → NodeMemory α → Prop}
    {object : Option α}
    (hStores : Represents s list value)
    (hPost : Q (value.containsObject object) s) :
    wp (containsObject list object) Q E s := by
  rcases hStores with ⟨cells, hLinked, _, hItems⟩
  cases object with
  | none => exact hPost
  | some object =>
      unfold KList.containsObject at hPost
      simp only [hItems] at hPost
      unfold containsObject
      simp only
      rw [hLinked.root]
      exact
        wp_anyEntry hLinked.chain
          (Nat.le_of_eq hLinked.count.symm) hPost

end KListHead

end KDoth

------------------------------------------------------------
-- Adding
------------------------------------------------------------

namespace KDoth

namespace KListHead

open Command MemoryCall

variable {α : Type} {s : NodeMemory α}
variable {nodes : Nat → Option (KListEntry α)}
variable {list : KListHead} {value : KList α}

/- A free address is no cell. -/
theorem Linked.not_cell
    {cells : List (Nat × α)}
    {a : Nat}
    (hLinked : Linked nodes list cells)
    (hFree : nodes a = none) :
    a ∉ Chain.addresses cells := by
  intro hMem
  exact hLinked.chain.live hMem hFree

theorem Linked.nodup_append
    {cells : List (Nat × α)}
    {a : Nat}
    {object : α}
    (hLinked : Linked nodes list cells)
    (hNot : a ∉ Chain.addresses cells) :
    (Chain.addresses (cells ++ [(a, object)])).Nodup := by
  unfold Chain.addresses at hNot ⊢
  rw [List.map_append]
  apply List.Nodup.append hLinked.nodup (by simp)
  intro b hMem hNew
  have hSame : b = a := by simpa using hNew
  rw [hSame] at hMem
  exact hNot hMem

/- The only node. -/
theorem Linked.pushFirst
    {a : Nat}
    {object : α}
    (hLinked : Linked nodes list ([] : List (Nat × α))) :
    Linked
      (Function.update nodes a
        (some (listEntry none none object)))
      { list with root := some a, count := list.count + 1 }
      [(a, object)] := by
  refine ⟨⟨?_, trivial⟩, by simp [Chain.addresses], rfl, ?_⟩
  · rw [Function.update_self]
    rfl
  · show list.count + 1 = 1
    rw [hLinked.count]
    rfl

/- The last node leads to the new one, and back. -/
theorem Linked.pushLast
    {l : List (Nat × α)}
    {c : Nat × α}
    {a : Nat}
    {object : α}
    {nodes' : Nat → Option (KListEntry α)}
    (hLinked : Linked nodes list (l ++ [c]))
    (hNot : a ∉ Chain.addresses (l ++ [c]))
    (hNew : nodes' a = some (listEntry (some c.1) none object))
    (hLast :
      ∀ b, b ≠ a →
        nodes' b =
          Function.update nodes c.1
            (some
              (listEntry (Chain.last none l) (some a) c.2))
            b) :
    Linked nodes' { list with count := list.count + 1 }
      (l ++ [c] ++ [(a, object)]) := by
  have hChain :
      Chain listEntry
        (Function.update nodes c.1
          (some
            (listEntry (Chain.last none l) (some a) c.2)))
        none (l ++ [c]) (some a) :=
    hLinked.chain.setEnd hLinked.nodup
  refine ⟨?_, hLinked.nodup_append hNot, ?_, ?_⟩
  · rw [Chain.chain_append]
    constructor
    · apply hChain.congr
      intro b hMem
      apply hLast
      intro hSame
      rw [hSame] at hMem
      exact hNot hMem
    · refine ⟨?_, trivial⟩
      rw [Chain.last_concat]
      exact hNew
  · rw [Chain.first_append]
    show list.root = _
    rw [hLinked.root]
    cases l <;> rfl
  · show list.count + 1 = _
    rw [hLinked.count]
    simp only [List.length_append, List.length_singleton]

/- The new node is linked behind the others. -/
theorem wp_linkEntry
    {Q : KListHead → NodeMemory α → Prop}
    {E : Fault → NodeMemory α → Prop}
    {cells : List (Nat × α)}
    {a : Nat}
    {object : α}
    (hLinked : Linked nodes list cells)
    (hNot : a ∉ Chain.addresses cells)
    (hNodes :
      s.cell =
        Function.update nodes a
          (some (listEntry none none object)))
    (hPost :
      ∀ list' s',
        s'.process = s.process →
          list'.address = list.address →
            Linked s'.cell list' (cells ++ [(a, object)]) →
              Q list' s') :
    wp (linkEntry list a) Q E s := by
  unfold linkEntry
  rcases Chain.last_cases (p := none) cells with
    ⟨hNil, _⟩ | ⟨l, c, hEq, _⟩
  · subst hNil
    have hRoot : list.root = none := hLinked.root
    rw [hRoot]
    refine hPost { list with root := _, count := _ } s rfl rfl ?_
    rw [hNodes]
    exact hLinked.pushFirst
  · subst hEq
    have hTail :
        Chain listEntry s.cell none (l ++ [c]) none := by
      rw [hNodes]
      exact hLinked.chain.update hNot
    have hNode :
        s.cell c.1 =
          some (listEntry (Chain.last none l) none c.2) :=
      ((Chain.chain_append l [c]).mp hTail).2.1
    have hNe : a ≠ c.1 := by
      intro hSame
      apply hNot
      simp [Chain.addresses, hSame]
    have hFresh :
        s.cell a = some (listEntry none none object) := by
      rw [hNodes, Function.update_self]
    have hTurns : l.length < list.count := by
      rw [hLinked.count]
      simp
    cases hRoot : list.root with
    | none =>
        rw [hLinked.root] at hRoot
        cases l <;> cases hRoot
    | some root =>
        simp only [wp_bind]
        apply
          wp_lastEntry_concat hTail
            (hLinked.root.symm.trans hRoot) hTurns
        rw [wp_load hNode, wp_store hNode]
        have hStill :
            (s.setCell c.1
              (some
                (listEntry (Chain.last none l) (some a)
                  c.2))).cell a =
              some (listEntry none none object) := by
          rw [Memory.setCell_of_ne hNe]
          exact hFresh
        change
          wp (load a) _ E
            (s.setCell c.1
              (some
                (listEntry (Chain.last none l) (some a) c.2)))
        rw [wp_load hStill, wp_store hStill]
        refine hPost { list with root := _, count := _ } _ rfl rfl ?_
        rw [← hRoot]
        apply hLinked.pushLast hNot
        · exact Memory.setCell_self
        · intro b hOther
          rw [Memory.setCell_of_ne hOther, Memory.setCell_cell, hNodes,
            Function.update_comm hNe,
            Function.update_of_ne hOther]

/- `KListAddObject` appends, or leaves the list as it was. -/
theorem simulates_addObject
    [KObject α]
    {answer : Option Nat}
    {object : Option α}
    (hStores : Represents s list value)
    (hFree :
      object ≠ none →
        ∀ a, answer = some a → s.cell a = none) :
    Simulates Represents (addObject answer list object)
      (KList.addObject (fun _ => answer.isSome) value object)
      s := by
  intro Q E hValue
  have hWhole := hStores
  rcases hStores with ⟨cells, hLinked, hAddress, hItems⟩
  cases object with
  | none => exact hValue list s rfl hWhole
  | some object =>
      simp only [KList.addObject, wp_bind, wp_request]
        at hValue
      cases answer with
      | none =>
          simp only [addObject, wp_bind, wp_callocEntry_none]
          exact hValue list _ rfl hWhole
      | some a =>
          have hUnused := hFree (Option.some_ne_none object) a rfl
          simp only [addObject, wp_bind,
            wp_callocEntry_some hUnused, wp_lift]
          simp only [Option.isSome_some, if_true, wp_bind,
            wp_pure] at hValue
          apply wp_mono hValue
          · intro _ q hDone
            have hZero :
                (((s.setProcess
                    (s.process.requested
                      .listEntry)).setCell a
                  (some ⟨none, none, none⟩)).setProcess
                    q).cell a =
                  some ⟨none, none, none⟩ := Memory.setCell_self
            rw [wp_load hZero, wp_store hZero]
            apply
              wp_linkEntry hLinked
                (hLinked.not_cell hUnused)
                (Function.update_idem ..)
            intro list' s' hProcess hSame hNext
            apply hDone list' s' hProcess
            refine ⟨_, hNext, hAddress.trans hSame.symm, ?_⟩
            show value.items ++ [object] = _
            rw [hItems, List.map_append]
            rfl
          · intro e q hStop
            exact hStop _ rfl

end KListHead

end KDoth

------------------------------------------------------------
-- Removing
------------------------------------------------------------

namespace KDoth

namespace KListHead

open Command MemoryCall

variable {α : Type} {s : NodeMemory α}
variable {nodes : Nat → Option (KListEntry α)}
variable {list : KListHead} {value : KList α}
variable {E : Fault → NodeMemory α → Prop}

/- The cells before the removed one lead past it. -/
theorem wp_setNext
    {Q : Unit → NodeMemory α → Prop}
    {l : List (Nat × α)}
    {e next : Option Nat}
    (hChain : Chain listEntry s.cell none l e)
    (hNodup : (Chain.addresses l).Nodup)
    (hPost :
      ∀ s',
        s'.process = s.process →
          Chain listEntry s'.cell none l next →
            (∀ a, a ∉ Chain.addresses l →
              s'.cell a = s.cell a) →
              Q () s') :
    wp (setNext (Chain.last none l) next) Q E s := by
  rcases Chain.last_cases (p := none) l with
    ⟨hNil, hLast⟩ | ⟨l', c, hEq, hLast⟩
  · subst hNil
    exact hPost s rfl trivial (fun _ _ => rfl)
  · subst hEq
    rw [hLast]
    have hNode :
        s.cell c.1 =
          some (listEntry (Chain.last none l') e c.2) :=
      ((Chain.chain_append l' [c]).mp hChain).2.1
    show wp (load c.1 >>= _) Q E s
    rw [wp_bind, wp_load hNode, wp_store hNode]
    refine
      hPost
        (s.setCell c.1
          (some (listEntry (Chain.last none l') next c.2)))
        rfl ?_ ?_
    · exact hChain.setEnd hNodup
    · intro a hNot
      apply Memory.setCell_of_ne
      intro hSame
      apply hNot
      simp [Chain.addresses, hSame]

/- The cells behind the removed one come after the others. -/
theorem wp_setPrev
    {Q : Unit → NodeMemory α → Prop}
    {r : List (Nat × α)}
    {p prev : Option Nat}
    (hChain : Chain listEntry s.cell p r none)
    (hNodup : (Chain.addresses r).Nodup)
    (hPost :
      ∀ s',
        s'.process = s.process →
          Chain listEntry s'.cell prev r none →
            (∀ a, a ∉ Chain.addresses r →
              s'.cell a = s.cell a) →
              Q () s') :
    wp (setPrev (Chain.first r none) prev) Q E s := by
  cases r with
  | nil => exact hPost s rfl trivial (fun _ _ => rfl)
  | cons c r =>
      show wp (load c.1 >>= _) Q E s
      rw [wp_bind, wp_load hChain.1, wp_store hChain.1]
      refine
        hPost
          (s.setCell c.1
            (some (listEntry prev (Chain.first r none) c.2)))
          rfl ?_ ?_
      · exact hChain.setStart hNodup
      · intro a hNot
        apply Memory.setCell_of_ne
        intro hSame
        apply hNot
        simp [Chain.addresses, hSame]

/- The removed cell is out of the chain and free. -/
theorem Linked.removed
    {l r : List (Nat × α)}
    {c : Nat × α}
    {nodes' : Nat → Option (KListEntry α)}
    {root : Option Nat}
    (hLinked : Linked nodes list (l ++ c :: r))
    (hBefore :
      Chain listEntry nodes' none l (Chain.first r none))
    (hBehind :
      Chain listEntry nodes' (Chain.last none l) r none)
    (hRoot : root = Chain.first (l ++ r) none) :
    Linked (Function.update nodes' c.1 none)
      { list with root := root, count := list.count - 1 }
      (l ++ r) := by
  have hNodup := hLinked.nodup
  unfold Chain.addresses at hNodup
  simp only [List.map_append, List.map_cons] at hNodup
  have hPerm := List.nodup_middle.mp hNodup
  rw [List.nodup_cons] at hPerm
  refine ⟨?_, ?_, hRoot, ?_⟩
  · apply Chain.update
    · rw [Chain.chain_append]
      exact ⟨hBefore, hBehind⟩
    · unfold Chain.addresses
      rw [List.map_append]
      exact hPerm.1
  · unfold Chain.addresses
    rw [List.map_append]
    exact hPerm.2
  · show list.count - 1 = (l ++ r).length
    rw [hLinked.count]
    simp only [List.length_append, List.length_cons]
    omega

/- The root after the cell at an index was removed. -/
theorem Linked.root_removed
    {l r : List (Nat × α)}
    {c : Nat × α}
    (hLinked : Linked nodes list (l ++ c :: r)) :
    (if l.length = 0 then Chain.first r none
      else list.root) =
      Chain.first (l ++ r) none := by
  rw [hLinked.root, Chain.first_append, Chain.first_append]
  cases l with
  | nil => rfl
  | cons d l => rfl

/-
  The node at an index is taken out and freed, whether it is
  the first, the last, in between or the only one.
-/
theorem wp_unlinkEntry
    {Q : KListHead × Option α → NodeMemory α → Prop}
    {l r : List (Nat × α)}
    {c : Nat × α}
    (hLinked : Linked s.cell list (l ++ c :: r))
    (hPost :
      ∀ list' s',
        s'.process = s.process →
          list'.address = list.address →
            Linked s'.cell list' (l ++ r) →
              Q (list', some c.2) s') :
    wp (unlinkEntry list l.length c.1) Q E s := by
  have hNodup := hLinked.nodup
  simp only [Chain.addresses, List.map_append, List.map_cons]
    at hNodup
  have hMiddle := List.nodup_middle.mp hNodup
  rw [List.nodup_cons] at hMiddle
  rcases hMiddle with ⟨hNotIn, hRest⟩
  have hApart := List.disjoint_of_nodup_append hRest
  have hNotLeft : c.1 ∉ Chain.addresses l := fun hMem =>
    hNotIn (List.mem_append_left _ hMem)
  have hNotRight : c.1 ∉ Chain.addresses r := fun hMem =>
    hNotIn (List.mem_append_right _ hMem)
  have hChains :=
    (Chain.chain_append l (c :: r)).mp hLinked.chain
  rcases hChains with ⟨hLeft, hNode, hRight⟩
  unfold unlinkEntry
  simp only [wp_bind, wp_load hNode]
  apply wp_setNext hLeft hRest.of_append_left
  intro s₁ hProcess₁ hBefore hSame₁
  have hRight₁ :
      Chain listEntry s₁.cell (some c.1) r none := by
    apply hRight.congr
    intro a hMem
    apply hSame₁
    intro hOther
    exact hApart hOther hMem
  apply wp_setPrev hRight₁ hRest.of_append_right
  intro s₂ hProcess₂ hBehind hSame₂
  have hBefore₂ :
      Chain listEntry s₂.cell none l
        (Chain.first r none) := by
    apply hBefore.congr
    intro a hMem
    apply hSame₂
    intro hOther
    exact hApart hMem hOther
  have hNode₂ :
      s₂.cell c.1 =
        some
          (listEntry (Chain.last none l)
            (Chain.first r none) c.2) := by
    rw [hSame₂ c.1 hNotRight, hSame₁ c.1 hNotLeft]
    exact hNode
  rw [wp_load hNode₂, wp_free hNode₂]
  refine
    hPost { list with root := _, count := _ } _
      (hProcess₂.trans hProcess₁) rfl ?_
  exact
    hLinked.removed hBefore₂ hBehind hLinked.root_removed

/-
  `KListRemoveObjectAtIndex` takes out the item at the index
  and returns it.
-/
theorem simulates_removeObjectAtIndex
    {index : Nat}
    (hStores : Represents s list value) :
    Simulates Represents (removeObjectAtIndex list index)
      (pure (value.removeObjectAtIndex index)) s := by
  intro Q E hValue
  have hWhole := hStores
  rcases hStores with ⟨cells, hLinked, hAddress, hItems⟩
  rw [wp_pure] at hValue
  unfold KList.removeObjectAtIndex at hValue
  have hGet :
      value.items[index]? =
        cells[index]?.map Prod.snd := by
    rw [hItems, List.getElem?_map]
  unfold removeObjectAtIndex
  rw [wp_bind, hLinked.root]
  refine
    wp_entryAt hLinked.chain
      (Nat.le_of_eq hLinked.count.symm)
      (Nat.zero_le index) ?_
  rw [Nat.sub_zero]
  cases hCell : cells[index]? with
  | none =>
      rw [hGet, hCell] at hValue
      exact hValue list s rfl hWhole
  | some c =>
      have hLt : index < cells.length :=
        (List.getElem?_eq_some_iff.mp hCell).1
      have hSplit :
          cells =
            cells.take index ++ c :: cells.drop (index + 1) := by
        have hDrop := List.drop_eq_getElem_cons hLt
        rw [(List.getElem?_eq_some_iff.mp hCell).2] at hDrop
        rw [← hDrop, List.take_append_drop]
      have hLength : (cells.take index).length = index :=
        List.length_take_of_le (Nat.le_of_lt hLt)
      rw [hGet, hCell] at hValue
      show wp (unlinkEntry list index c.1) Q E s
      rw [← hLength]
      rw [hSplit] at hLinked
      apply wp_unlinkEntry hLinked
      intro list' s' hProcess hSame hNext
      apply hValue list' s' hProcess
      refine ⟨_, hNext, hAddress.trans hSame.symm, ?_⟩
      show value.items.eraseIdx index = _
      rw [hItems, List.eraseIdx_eq_take_drop_succ,
        List.map_append, List.map_take, List.map_drop]

/-
  `KListRemoveAllObjects` releases the items in order, frees
  every node, and finds as many as the list counted.
-/
theorem simulates_removeAllObjects
    [KObject α]
    (hStores : Represents s list value) :
    Simulates Represents (removeAllObjects list)
      value.removeAllObjects s := by
  intro Q E hValue
  rcases hStores with ⟨cells, hLinked, hAddress, hItems⟩
  simp only [KList.removeAllObjects, wp_bind, wp_pure]
    at hValue
  unfold removeAllObjects
  rw [wp_bind, hLinked.root]
  apply
    wp_releaseEntries hLinked.chain hLinked.nodup
      (Nat.le_of_eq hLinked.count.symm)
  rw [← hItems]
  apply wp_mono hValue
  · intro _ q hDone s' hProcess
    have hCount : 0 + cells.length = list.count := by
      rw [hLinked.count]
      omega
    have hNumber : list.count = value.getCount := by
      rw [hLinked.count]
      unfold KList.getCount
      rw [hItems, List.length_map]
    rw [hCount]
    simp only [wp_bind, wp_lift, wp_kAssert, beq_self_eq_true,
      if_true, wp_pure]
    rw [hNumber]
    refine
      hDone { list with root := none, count := 0 }
        _ hProcess ?_
    exact
      ⟨[], ⟨trivial, List.nodup_nil, rfl, rfl⟩, hAddress, rfl⟩
  · intro e q hStop
    exact hStop

/- `KListDeInit` finds as many nodes as the list counted. -/
theorem wp_deInit
    [KObject α]
    {Q : Unit → NodeMemory α → Prop}
    (hStores : Represents s list value)
    (hValue :
      wp value.deInit (fun _ p => ∀ s', s'.process = p → Q () s')
        (fun e p => ∀ s', s'.process = p → E (.stop e) s')
        s.process) :
    wp (deInit list) Q E s := by
  have hCount : list.count = value.getCount := by
    rcases hStores with ⟨cells, hLinked, _, hItems⟩
    exact hLinked.length_items hItems
  unfold deInit
  rw [wp_bind]
  apply simulates_removeAllObjects hStores
  simp only [KList.deInit, wp_bind, wp_kAssert] at hValue
  apply wp_mono hValue
  · intro r q hDone list' s' hProcess _
    simp only [wp_lift, wp_kAssert]
    rw [hProcess]
    have hSame : list.getCount = value.getCount := hCount
    rw [hSame]
    split at hDone
    next hEq =>
      rw [if_pos hEq]
      exact hDone _ rfl
    next hEq =>
      rw [if_neg hEq]
      exact hDone _ rfl
  · intro e q hStop
    exact hStop

end KListHead

end KDoth
