import KDoth.Collections.LiveIteration
import Mathlib.Data.List.InsertIdx

/-
  Iterating over a list that the callback changes. As long as
  the callback does not remove the item it was called with,
  the entry that the loop is at stays in its chain, and the
  loop does what a cursor in the sequence does.

  Key definitions include:
    * `KListCall.effect`
    * `ListIteration.Follows`
    * `ListCursor.Account`

  Key theorems include:
    * `KListCall.effect_split`
    * `KListHead.Linked.wp_call`
    * `ListIteration.follows_step`
    * `ListCursor.account_step`
    * `ListIteration.visits_what_remains`
-/

------------------------------------------------------------
-- Calls Around An Item
------------------------------------------------------------

namespace KDoth

namespace KListCall

variable {α β γ : Type}

/- The cell that the call adds. -/
def newCells : KListCall α → List (Nat × α)
| .addObject (some object) (some a) => [(a, object)]
| _ => []

/- What the call does to a sequence, given what it adds. -/
def effect
    (new items : List β) :
    KListCall α → List β
| .removeObjectAtIndex index => items.eraseIdx index
| .removeAllObjects => []
| _ => items ++ new

theorem map_newCells
    (c : KListCall α) :
    c.newCells.map Prod.snd = c.added := by
  cases c with
  | addObject object answer =>
      cases object <;> cases answer <;> rfl
  | _ => rfl

theorem map_effect
    (f : β → γ)
    (new items : List β)
    (c : KListCall α) :
    (c.effect new items).map f =
      c.effect (new.map f) (items.map f) := by
  cases c with
  | removeObjectAtIndex index =>
      exact (List.eraseIdx_map f items index).symm
  | removeAllObjects => rfl
  | _ => exact List.map_append

theorem listCall_effect
    (items : List KObjectRef)
    (c : KListCall KObjectRef) :
    (ItemSequence.listCall items c).2 =
      c.effect c.added items := by
  cases c with
  | addObject object answer =>
      cases object <;> cases answer <;>
        simp [ItemSequence.listCall, effect, added]
  | containsObject object =>
      cases object <;>
        simp [ItemSequence.listCall, effect, added]
  | _ => simp [ItemSequence.listCall, effect, added]

/-
  A call that spares an item leaves it where its position is
  moved to. Before it no item is new, and behind it only the
  one that is added.
-/
theorem effect_split
    {c : KListCall α}
    {l r : List β}
    {x : β}
    (new : List β)
    (hSpares : c.Spares l.length) :
    ∃ l' r',
      c.effect new (l ++ x :: r) = l' ++ x :: r' ∧
        l'.length = c.shift l.length ∧
        l'.Sublist l ∧
        r'.Sublist (r ++ new) := by
  cases c with
  | removeObjectAtIndex index =>
      have hOther : index ≠ l.length := hSpares
      by_cases hBefore : index < l.length
      · refine
          ⟨l.eraseIdx index, r,
            List.eraseIdx_append_of_lt_length hBefore _, ?_,
            List.eraseIdx_sublist l index,
            List.sublist_append_left r new⟩
        show _ = if index < l.length then l.length - 1 else _
        rw [if_pos hBefore,
          List.length_eraseIdx_of_lt hBefore]
      · have hBehind : l.length ≤ index := by omega
        have hRest :
            index - l.length = index - l.length - 1 + 1 := by
          omega
        refine
          ⟨l, r.eraseIdx (index - l.length - 1), ?_, ?_,
            List.Sublist.refl l, ?_⟩
        · show (l ++ x :: r).eraseIdx index = _
          rw [List.eraseIdx_append_of_length_le hBehind, hRest,
            List.eraseIdx_cons_succ]
          rfl
        · exact (if_neg hBefore).symm
        · exact
            (List.eraseIdx_sublist r _).trans
              (List.sublist_append_left r new)
  | removeAllObjects => exact hSpares.elim
  | _ =>
      exact
        ⟨l, r ++ new, List.append_assoc l (x :: r) new, rfl,
          List.Sublist.refl l, List.Sublist.refl _⟩

end KListCall

end KDoth

------------------------------------------------------------
-- One Call On The Cells
------------------------------------------------------------

namespace KDoth

namespace KListHead

open Command MemoryCall

variable {s : NodeMemory KObjectRef} {list : KListHead}
variable {cells : List (Nat × KObjectRef)}

theorem Linked.represents
    (hLinked : Linked s.cell list cells) :
    Represents s list
      { address := list.address
        items := cells.map Prod.snd } :=
  ⟨cells, hLinked, rfl, rfl⟩

/- An added object is in a cell of its own behind the others. -/
theorem Linked.wp_addObject
    {Q : KListHead × Bool → NodeMemory KObjectRef → Prop}
    {E : Fault → NodeMemory KObjectRef → Prop}
    {object : KObjectRef}
    {a : Nat}
    (hLinked : Linked s.cell list cells)
    (hFree : s.cell a = none)
    (hPost :
      ∀ list' s',
        Linked s'.cell list' (cells ++ [(a, object)]) →
          Q (list', true) s') :
    wp (addObject (some a) list (some object)) Q E s := by
  simp only [addObject, wp_bind, wp_callocEntry_some hFree,
    wp_lift, wp_retain_client]
  have hZero :
      ∀ p,
        (((s.setProcess
            (s.process.requested .listEntry)).setCell a
          (some ⟨none, none, none⟩)).setProcess p).cell a =
          some
            (⟨none, none, none⟩ : KListEntry KObjectRef) :=
    fun _ => Memory.setCell_self
  rw [wp_load (hZero _), wp_store (hZero _)]
  apply
    wp_linkEntry hLinked (hLinked.not_cell hFree)
      (Function.update_idem ..)
  intro list' s' _ _ hNext
  exact hPost list' s' hNext

/- The cell at the index is taken out. -/
theorem Linked.wp_removeObjectAtIndex
    {Q :
      KListHead × Option KObjectRef →
        NodeMemory KObjectRef → Prop}
    {E : Fault → NodeMemory KObjectRef → Prop}
    {index : Nat}
    (hLinked : Linked s.cell list cells)
    (hPost :
      ∀ list' s',
        Linked s'.cell list' (cells.eraseIdx index) →
          Q (list', cells[index]?.map Prod.snd) s') :
    wp (removeObjectAtIndex list index) Q E s := by
  unfold removeObjectAtIndex
  rw [wp_bind, hLinked.root]
  refine
    wp_entryAt hLinked.chain
      (Nat.le_of_eq hLinked.count.symm)
      (Nat.zero_le index) ?_
  rw [Nat.sub_zero]
  cases hCell : cells[index]? with
  | none =>
      rw [hCell] at hPost
      apply hPost list s
      rw [List.eraseIdx_of_length_le
        (List.getElem?_eq_none_iff.mp hCell)]
      exact hLinked
  | some c =>
      rcases Chain.split_at hCell with
        ⟨l, r, hSplit, hLength⟩
      subst hSplit
      subst hLength
      show wp (unlinkEntry list l.length c.1) Q E s
      apply wp_unlinkEntry hLinked
      intro list' s' _ _ hNext
      rw [hCell] at hPost
      apply hPost list' s'
      rw [List.eraseIdx_append_of_length_le (Nat.le_refl _),
        Nat.sub_self, List.eraseIdx_cons_zero]
      exact hNext

/-
  A call returns what it returns on the sequence, and its
  cells stay where they are.
-/
theorem Linked.wp_call
    (hLinked : Linked s.cell list cells)
    (c : KListCall KObjectRef)
    (hFree : c.Free s.cell) :
    wp (list.call c)
      (fun r s' =>
        r.2 =
            (ItemSequence.listCall
              (cells.map Prod.snd) c).1 ∧
          Linked s'.cell r.1 (c.effect c.newCells cells))
      (fun _ _ => False) s := by
  have hSame :
      Linked s.cell list (cells ++ []) := by
    rw [List.append_nil]
    exact hLinked
  cases c with
  | addObject object answer =>
      cases object with
      | none => exact ⟨rfl, hSame⟩
      | some object =>
          cases answer with
          | none =>
              simp only [call, addObject, wp_bind,
                wp_callocEntry_none]
              exact ⟨rfl, hSame⟩
          | some a =>
              unfold call
              rw [wp_bind]
              apply hLinked.wp_addObject hFree
              intro list' s' hNext
              exact ⟨rfl, hNext⟩
  | removeObjectAtIndex index =>
      unfold call
      rw [wp_bind]
      apply hLinked.wp_removeObjectAtIndex
      intro list' s' hNext
      refine ⟨?_, hNext⟩
      show _ = ItemValue.item (cells.map Prod.snd)[index]?
      rw [List.getElem?_map]
  | removeAllObjects =>
      apply
        simulates_call hLinked.represents .removeAllObjects
          hFree
      apply
        wp_mono
          (KList.wp_call _ .removeAllObjects s.process)
      · intro r p hValue list' s' _ hNext
        refine ⟨hValue.1, ?_⟩
        rcases hNext with ⟨cells', hLinked', _, hItems⟩
        have hNil : cells' = [] := by
          rw [hValue.2] at hItems
          exact List.map_eq_nil_iff.mp hItems.symm
        rw [hNil] at hLinked'
        exact hLinked'
      · intro _ _ hFalse
        exact hFalse.elim
  | getObjectAtIndex index =>
      unfold call
      rw [wp_bind]
      apply wp_getObjectAtIndex hLinked.represents
      exact ⟨rfl, hSame⟩
  | containsObject object =>
      unfold call
      rw [wp_bind]
      apply wp_containsObject hLinked.represents
      refine ⟨?_, hSame⟩
      cases object <;> rfl
  | getCount =>
      refine ⟨?_, hSame⟩
      show ItemValue.number list.count = .number _
      rw [hLinked.count, List.length_map]

end KListHead

end KDoth

------------------------------------------------------------
-- One Step
------------------------------------------------------------

namespace KDoth

namespace ListIteration

open Command MemoryCall

/- The entry of a phase is the cell at the cursor. -/
def At
    (cells : List (Nat × KObjectRef)) :
    IterationPhase (Option Nat) Nat →
      IterationPhase Nat Nat → Prop
| .head next, .head position =>
    next = (Chain.addresses cells)[position]?
| .inside current, .inside position =>
    ∃ l o r,
      cells = l ++ (current, o) :: r ∧ position = l.length
| .ended, .ended => True
| _, _ => False

/- The nodes store the cursor's items, and it is where it is. -/
def Follows
    (r : ListIteration × NodeMemory KObjectRef)
    (t : ListCursor) : Prop :=
  ∃ cells,
    KListHead.Linked r.2.cell r.1.list cells ∧
      t.items = cells.map Prod.snd ∧
      r.1.i = t.i ∧
      At cells r.1.phase t.phase

/-
  A step of the cursor does what it does in memory, and
  leaves the cursor where the iteration is.
-/
def Tracks
    (r : ListIteration × NodeMemory KObjectRef)
    (t : ListCursor)
    (l : IterationStep (KListCall KObjectRef)) : Prop :=
  wp (step r.1 l)
    (fun q s' =>
      q.2 = (t.next l).1 ∧ Follows (q.1, s') (t.next l).2)
    (fun _ _ => False) r.2

variable {list : KListHead} {s : NodeMemory KObjectRef}
variable {cells : List (Nat × KObjectRef)}
variable {i : Nat}

/- There is an entry where the cursor finds an item. -/
theorem tracks_visit
    (hLinked : KListHead.Linked s.cell list cells)
    (position : Nat) :
    Tracks
      ({ list := list
         phase :=
           .head (Chain.addresses cells)[position]?
         i := i }, s)
      { items := cells.map Prod.snd
        phase := .head position
        i := i }
      .visit := by
  simp only [Tracks, ListCursor.next, Chain.addresses,
    List.getElem?_map]
  cases hCell : cells[position]? with
  | none =>
      exact ⟨rfl, cells, hLinked, rfl, rfl, trivial⟩
  | some c =>
      rcases Chain.split_at hCell with
        ⟨l, r, hSplit, hLength⟩
      show wp (load c.1 >>= _) _ _ s
      rw [wp_bind, wp_load (hLinked.chain.get hCell)]
      exact
        ⟨rfl, cells, hLinked, rfl, rfl, l, c.2, r, hSplit,
          hLength⟩

/- A call that spares its item leaves its cell in the chain. -/
theorem tracks_call
    {l r : List (Nat × KObjectRef)}
    {x : Nat × KObjectRef}
    (hLinked : KListHead.Linked s.cell list (l ++ x :: r))
    (c : KListCall KObjectRef)
    (hFree : c.Free s.cell)
    (hSpares : c.Spares l.length) :
    Tracks
      ({ list := list, phase := .inside x.1, i := i }, s)
      { items := (l ++ x :: r).map Prod.snd
        phase := .inside l.length
        i := i }
      (.call c) := by
  simp only [Tracks, step, wp_bind, ListCursor.next]
  apply wp_imp (hLinked.wp_call c hFree)
  intro q s' hEnd
  refine ⟨congrArg IterationValue.result hEnd.1, ?_⟩
  rcases KListCall.effect_split c.newCells hSpares with
    ⟨l', r', hCells, hLength, _, _⟩
  refine ⟨_, hEnd.2, ?_, rfl, l', x.2, r', hCells, hLength.symm⟩
  show (ItemSequence.listCall _ c).2 = _
  rw [KListCall.listCall_effect, KListCall.map_effect,
    KListCall.map_newCells]

/- The entry that was visited leads to the next one. -/
theorem tracks_answer
    {l r : List (Nat × KObjectRef)}
    {x : Nat × KObjectRef}
    (hLinked : KListHead.Linked s.cell list (l ++ x :: r))
    (goesOn : Bool) :
    Tracks
      ({ list := list, phase := .inside x.1, i := i }, s)
      { items := (l ++ x :: r).map Prod.snd
        phase := .inside l.length
        i := i }
      (.answer goesOn) := by
  cases goesOn with
  | false => exact ⟨rfl, _, hLinked, rfl, rfl, trivial⟩
  | true =>
      have hCell : (l ++ x :: r)[l.length]? = some x := by
        simp
      show wp (load x.1 >>= _) _ _ s
      rw [wp_bind, wp_load (hLinked.chain.get hCell)]
      refine ⟨rfl, _, hLinked, rfl, rfl, ?_⟩
      exact Chain.first_drop (l ++ x :: r) (l.length + 1)

/- A step in memory is the step of the cursor. -/
theorem step_of_tracks
    {r r' : ListIteration × NodeMemory KObjectRef}
    {t : ListCursor}
    {l : IterationStep (KListCall KObjectRef)}
    {v : Except Fault (IterationValue KObjectRef)}
    (hTracks : Tracks r t l)
    (hAllows : t.phase.Allows l)
    (hStep : machine.step r l = some (v, r')) :
    ∃ t',
      ListCursor.machine.step t l = some (v, t') ∧
        Follows r' t' := by
  have hInner := (Machine.only_step_eq_some.mp hStep).2
  rcases step_of_wp hTracks with ⟨q, s, hEnd, hValue, hNext⟩
  rw [hEnd] at hInner
  cases hInner
  refine ⟨(t.next l).2, ?_, hNext⟩
  apply Machine.only_step_eq_some.mpr
  refine ⟨hAllows, ?_⟩
  rw [hValue]

/- An answer of `calloc` that is not free is no step. -/
theorem free_of_step
    {r r' : ListIteration × NodeMemory KObjectRef}
    {c : KListCall KObjectRef}
    {v : Except Fault (IterationValue KObjectRef)}
    (hStep : machine.step r (.call c) = some (v, r')) :
    c.Free r.2.cell := by
  have hInner := (Machine.only_step_eq_some.mp hStep).2
  apply KListHead.free_of_step (r := (r.1.list, r.2))
  intro hNone
  simp only [KListHead.machine, MemoryCall.machine] at hNone
  split at hNone
  next => cases hNone
  next s hCall =>
    have hBind :
        step r.1 (.call c) r.2 = .error .occupied s :=
      bind_of_error hCall
    simp [MemoryCall.machine, hBind] at hInner
  next => cases hNone

/-
  As long as the callback spares its item, a step of the
  iteration is the step of the cursor.
-/
theorem follows_step
    (r : ListIteration × NodeMemory KObjectRef)
    (t : ListCursor)
    (l : IterationStep (KListCall KObjectRef))
    (v : Except Fault (IterationValue KObjectRef))
    (r' : ListIteration × NodeMemory KObjectRef)
    (hFollows : Follows r t)
    (hSpares :
      ∀ q, ListCursor.machine.step t l = some q → t.Spares l)
    (hStep : machine.step r l = some (v, r')) :
    ∃ t',
      ListCursor.machine.step t l = some (v, t') ∧
        Follows r' t' := by
  have hAllowed := (Machine.only_step_eq_some.mp hStep).1
  have hFree :
      ∀ c, l = .call c → c.Free r.2.cell := by
    intro c hCall
    subst hCall
    exact free_of_step hStep
  rcases r with ⟨⟨list, phase, i⟩, s⟩
  rcases t with ⟨items, place, j⟩
  rcases hFollows with ⟨cells, hLinked, hItems, hCount, hAt⟩
  simp only at hLinked hItems hCount hAt hAllowed hFree
  subst hItems
  subst hCount
  cases phase with
  | head next =>
      cases place with
      | head position =>
          cases l with
          | visit =>
              have hNext :
                  next = (Chain.addresses cells)[position]? :=
                hAt
              subst hNext
              exact
                step_of_tracks (tracks_visit hLinked position)
                  trivial hStep
          | _ => exact hAllowed.elim
      | _ => exact hAt.elim
  | inside current =>
      cases place with
      | inside position =>
          rcases hAt with ⟨before, o, behind, hCells, hAt⟩
          subst hCells
          subst hAt
          cases l with
          | visit => exact hAllowed.elim
          | call c =>
              have hCond : c.Spares before.length :=
                hSpares _ rfl
              exact
                step_of_tracks
                  (tracks_call hLinked c (hFree c rfl) hCond)
                  trivial hStep
          | answer goesOn =>
              exact
                step_of_tracks (tracks_answer hLinked goesOn)
                  trivial hStep
      | _ => exact hAt.elim
  | ended => cases l <;> exact hAllowed.elim

end ListIteration

end KDoth

------------------------------------------------------------
-- What Was Visited
------------------------------------------------------------

namespace KDoth

namespace ListCursor

open IterationValue

/- The items that the cursor has passed. -/
def passed (t : ListCursor) : List KObjectRef :=
  match t.phase with
  | .head position => t.items.take position
  | .inside position => t.items.take (position + 1)
  | .ended => []

/- The items that are still ahead of it. -/
def ahead (t : ListCursor) : List KObjectRef :=
  match t.phase with
  | .head position => t.items.drop position
  | .inside position => t.items.drop (position + 1)
  | .ended => []

/-
  What the visits so far say of the items: they are counted
  from one, those passed and still there are among them in
  order, and none is visited that was neither there at first
  nor added. An iteration that finished has left none out.
-/
structure Account
    (items : List KObjectRef)
    (t : ListCursor)
    (steps : List (IterationStep (KListCall KObjectRef)))
    (values :
      List (Except Fault (IterationValue KObjectRef))) :
    Prop where
  count : t.i = (visits values).length
  indexed :
    indices values = List.range' 1 (visits values).length
  inside :
    ∀ position,
      t.phase = .inside position →
        position < t.items.length
  covers : (t.passed.map some).Sublist (objects values)
  bounded :
    (objects values ++ t.ahead.map some).Sublist
      ((items ++ added steps).map some)
  finished :
    ∀ n, .ok (.finished n) ∈ values →
      t.phase = .ended ∧
        n = (visits values).length ∧
        (t.items.map some).Sublist (objects values)
  stopped :
    ∀ n, .ok (.stopped n) ∈ values →
      t.phase = .ended ∧ n = (visits values).length

variable {items : List KObjectRef} {t t' : ListCursor}
variable {steps : List (IterationStep (KListCall KObjectRef))}
variable
  {values : List (Except Fault (IterationValue KObjectRef))}

theorem added_concat
    (l : IterationStep (KListCall KObjectRef)) :
    added (steps ++ [l]) = added steps ++ addedBy l := by
  simp [added]

theorem account_start
    (items : List KObjectRef) :
    Account items (start items) [] [] := by
  refine
    ⟨rfl, rfl, nofun, List.Sublist.refl _, ?_, nofun, nofun⟩
  simp [start, ahead, objects, visits, added]

/- An iteration that is not over has returned no count. -/
theorem Account.running
    (hAccount : Account items t steps values)
    (hPhase : t.phase ≠ .ended)
    (n : Nat) :
    .ok (.finished n) ∉ values ∧ .ok (.stopped n) ∉ values := by
  constructor
  · intro hMem
    exact hPhase (hAccount.finished n hMem).1
  · intro hMem
    exact hPhase (hAccount.stopped n hMem).1

/- The items around the cursor, before and at a visit. -/
theorem around_head
    {l r : List KObjectRef}
    {x : KObjectRef}
    (hItems : t.items = l ++ x :: r)
    (hPhase : t.phase = .head l.length) :
    t.passed = l ∧ t.ahead = x :: r := by
  simp [passed, ahead, hItems, hPhase]

theorem around_inside
    {l r : List KObjectRef}
    {x : KObjectRef}
    (hItems : t.items = l ++ x :: r)
    (hPhase : t.phase = .inside l.length) :
    t.passed = l ++ [x] ∧ t.ahead = r := by
  have hSplit : t.items = (l ++ [x]) ++ r := by
    rw [hItems, List.append_assoc]
    rfl
  have hLength : l.length + 1 = (l ++ [x]).length := by simp
  simp only [passed, ahead, hSplit, hPhase, hLength]
  exact ⟨List.take_left, List.drop_left⟩

/- The loop ends where no item is ahead. -/
theorem account_finished
    (hAccount : Account items t steps values)
    {position : Nat}
    (hPhase : t.phase = .head position)
    (hItem : t.items[position]? = none) :
    Account items { t with phase := .ended }
      (steps ++ [.visit])
      (values ++ [.ok (.finished t.i)]) := by
  rcases
      visits_other values (v := .ok (.finished t.i)) rfl with
    ⟨hVisits, hObjects, hIndices⟩
  have hRunning := hAccount.running (by rw [hPhase]; nofun)
  have hCovers :
      (t.items.map some).Sublist (objects values) := by
    have hAll : t.passed = t.items := by
      simp only [passed, hPhase]
      exact
        List.take_of_length_le
          (List.getElem?_eq_none_iff.mp hItem)
    rw [← hAll]
    exact hAccount.covers
  have hBounded :=
    (List.sublist_append_left _ _).trans hAccount.bounded
  constructor
  · rw [hVisits]
    exact hAccount.count
  · rw [hVisits, hIndices]
    exact hAccount.indexed
  · nofun
  · exact List.nil_sublist _
  · rw [hObjects, added_concat]
    simpa [ahead, addedBy] using hBounded
  · intro n hMem
    have hCount : n = t.i := by simpa [hRunning n] using hMem
    rw [hVisits, hObjects, hCount]
    exact ⟨rfl, hAccount.count, hCovers⟩
  · intro n hMem
    exact absurd hMem (by simp [hRunning n])

/- An item is visited. -/
theorem account_visited
    (hAccount : Account items t steps values)
    {position : Nat}
    {object : KObjectRef}
    (hPhase : t.phase = .head position)
    (hItem : t.items[position]? = some object) :
    Account items
      { t with phase := .inside position, i := t.i + 1 }
      (steps ++ [.visit])
      (values ++ [.ok (.visited (some object) (t.i + 1))]) := by
  rcases
      visits_visited values
        (v := .ok (.visited (some object) (t.i + 1))) rfl with
    ⟨hVisits, hObjects, hIndices⟩
  have hRunning := hAccount.running (by rw [hPhase]; nofun)
  rcases Chain.split_at hItem with ⟨l, r, hSplit, hLength⟩
  subst hLength
  rcases around_head hSplit hPhase with ⟨hPassed, hAhead⟩
  have hAround :=
    around_inside
      (t := { t with phase := .inside l.length, i := t.i + 1 })
      hSplit rfl
  have hCovers := hAccount.covers
  have hBounded := hAccount.bounded
  rw [hPassed] at hCovers
  rw [hAhead] at hBounded
  constructor
  · rw [hVisits, List.length_append, ← hAccount.count]
    rfl
  · rw [hVisits, hIndices, hAccount.indexed, hAccount.count,
      List.length_append, List.length_singleton,
      List.range'_1_concat, Nat.add_comm 1]
  · intro position hHere
    cases hHere
    simp [hSplit]
  · rw [hAround.1, hObjects, List.map_append]
    exact hCovers.append (List.Sublist.refl _)
  · rw [hAround.2, hObjects, added_concat, List.append_assoc]
    simpa [addedBy] using hBounded
  · intro n hMem
    exact absurd hMem (by simp [hRunning n])
  · intro n hMem
    exact absurd hMem (by simp [hRunning n])

/-
  Where nothing was visited and the items before and behind
  the cursor are as they were, but for what was added.
-/
theorem account_other
    (hAccount : Account items t steps values)
    {l : IterationStep (KListCall KObjectRef)}
    {v : Except Fault (IterationValue KObjectRef)}
    (hRunning : t.phase ≠ .ended)
    (hVisit : visit v = none)
    (hCount : t'.i = t.i)
    (hInside :
      ∀ position,
        t'.phase = .inside position →
          position < t'.items.length)
    (hPassed : t'.passed.Sublist t.passed)
    (hAhead : t'.ahead.Sublist (t.ahead ++ addedBy l))
    (hFinished : ∀ n, v ≠ .ok (.finished n))
    (hStopped :
      ∀ n, v = .ok (.stopped n) → t'.phase = .ended ∧ n = t.i) :
    Account items t' (steps ++ [l]) (values ++ [v]) := by
  rcases visits_other values hVisit with
    ⟨hVisits, hObjects, hIndices⟩
  have hNone := hAccount.running hRunning
  constructor
  · rw [hCount, hVisits]
    exact hAccount.count
  · rw [hVisits, hIndices]
    exact hAccount.indexed
  · exact hInside
  · rw [hObjects]
    exact (hPassed.map some).trans hAccount.covers
  · rw [hObjects, added_concat, ← List.append_assoc,
      List.map_append]
    have hMore :=
      hAccount.bounded.append
        (List.Sublist.refl ((addedBy l).map some))
    rw [List.append_assoc, ← List.map_append] at hMore
    exact
      ((hAhead.map some).append_left _).trans hMore
  · intro n hMem
    rcases List.mem_append.mp hMem with hOld | hNew
    · exact absurd hOld (hNone n).1
    · exact
        absurd (List.mem_singleton.mp hNew).symm (hFinished n)
  · intro n hMem
    rw [hVisits, ← hAccount.count]
    rcases List.mem_append.mp hMem with hOld | hNew
    · exact absurd hOld (hNone n).2
    · exact hStopped n (List.mem_singleton.mp hNew).symm

/- A call of the callback that spares its item. -/
theorem account_call
    (hAccount : Account items t steps values)
    {position : Nat}
    {c : KListCall KObjectRef}
    (hPhase : t.phase = .inside position)
    (hSpares : c.Spares position) :
    Account items
      { t with
        items := (ItemSequence.listCall t.items c).2
        phase := .inside (c.shift position) }
      (steps ++ [.call c])
      (values ++
        [.ok
          (.result (ItemSequence.listCall t.items c).1)]) := by
  have hLt := hAccount.inside position hPhase
  rcases Chain.split_at (List.getElem?_eq_getElem hLt) with
    ⟨l, r, hSplit, hLength⟩
  generalize t.items[position] = x at hSplit
  subst hLength
  rcases around_inside hSplit hPhase with ⟨hPassed, hAhead⟩
  rcases
      KListCall.effect_split (r := r) (x := x) c.added
        hSpares with
    ⟨l', r', hEffect, hLength, hBefore, hBehind⟩
  rw [← KListCall.listCall_effect, ← hSplit] at hEffect
  rw [← hLength]
  have hAround :=
    around_inside
      (t :=
        { t with
          items := (ItemSequence.listCall t.items c).2
          phase := .inside l'.length })
      hEffect rfl
  have hRunning : t.phase ≠ .ended := by
    rw [hPhase]
    nofun
  refine
    account_other hAccount hRunning rfl rfl ?_ ?_ ?_ nofun nofun
  · intro position hHere
    cases hHere
    simp [hEffect]
  · rw [hAround.1, hPassed]
    exact hBefore.append (List.Sublist.refl _)
  · rw [hAround.2, hAhead]
    exact hBehind

/- Every step keeps the account of what was visited. -/
theorem account_step
    (t : ListCursor)
    (steps : List (IterationStep (KListCall KObjectRef)))
    (values :
      List (Except Fault (IterationValue KObjectRef)))
    (l : IterationStep (KListCall KObjectRef))
    (v : Except Fault (IterationValue KObjectRef))
    (t' : ListCursor)
    (hAccount : Account items t steps values)
    (hSpares : t.Spares l)
    (hStep : machine.step t l = some (v, t')) :
    Account items t' (steps ++ [l]) (values ++ [v]) := by
  rcases Machine.only_step_eq_some.mp hStep with
    ⟨hAllows, hNext⟩
  cases hNext
  rcases t with ⟨now, phase, i⟩
  cases phase with
  | head position =>
      cases l with
      | visit =>
          cases hItem : now[position]? with
          | none =>
              simp only [next, hItem]
              exact account_finished hAccount rfl hItem
          | some object =>
              simp only [next, hItem]
              exact account_visited hAccount rfl hItem
      | _ => exact hAllows.elim
  | inside position =>
      cases l with
      | visit => exact hAllows.elim
      | call c => exact account_call hAccount rfl hSpares
      | answer goesOn =>
          cases goesOn with
          | true =>
              exact
                account_other hAccount nofun rfl rfl nofun
                  (List.Sublist.refl _)
                  (List.sublist_append_left _ _) nofun nofun
          | false =>
              refine
                account_other hAccount nofun rfl rfl nofun
                  (List.nil_sublist _) (List.nil_sublist _)
                  nofun ?_
              intro n hEq
              cases hEq
              exact ⟨rfl, rfl⟩
  | ended => cases l <;> exact hAllows.elim

end ListCursor

end KDoth

------------------------------------------------------------
-- Runs
------------------------------------------------------------

namespace KDoth

namespace ListIteration

open IterationValue

/-
  An iteration over a list whose callback adds and removes
  what it likes, except the item it was called with, makes no
  access to a freed entry. It counts its visits from one, goes
  through the items and what is added behind them in order,
  and visits none of them twice. One that finishes has visited
  all the items that are in the list at its end.
-/
theorem visits_what_remains
    (list : KListHead)
    (s : NodeMemory KObjectRef)
    (items : List KObjectRef)
    (steps : List (IterationStep (KListCall KObjectRef)))
    (values :
      List (Except Fault (IterationValue KObjectRef)))
    (r : ListIteration × NodeMemory KObjectRef)
    (hStores : KListHead.Stores (list, s) items)
    (hSpares :
      ListCursor.machine.Meets ListCursor.Spares
        (ListCursor.start items) steps)
    (hRun :
      machine.run (start list, s) steps = some (values, r)) :
    ∃ t,
      ListCursor.machine.run (ListCursor.start items) steps =
          some (values, t) ∧
        KListHead.Stores (r.1.list, r.2) t.items ∧
        indices values =
          List.range' 1 (visits values).length ∧
        (objects values).Sublist
          ((items ++ ListCursor.added steps).map some) ∧
        (∀ n, .ok (.finished n) ∈ values →
          n = (visits values).length ∧
            (t.items.map some).Sublist (objects values)) ∧
        ∀ n, .ok (.stopped n) ∈ values →
          n = (visits values).length := by
  have hStart :
      Follows (start list, s) (ListCursor.start items) := by
    rcases hStores with
      ⟨value, ⟨cells, hLinked, _, hCells⟩, hItems⟩
    refine ⟨cells, hLinked, hItems.symm.trans hCells, rfl, ?_⟩
    show list.root = (Chain.addresses cells)[0]?
    rw [hLinked.root]
    exact Chain.first_drop cells 0
  rcases
      Machine.run_of_simulation_of_meets follows_step hStart
        hSpares hRun with
    ⟨t, hCursor, hEnds⟩
  have hAccount :=
    Machine.invariant_of_run ListCursor.account_step
      (ListCursor.account_start items)
      hSpares hCursor
  rw [List.nil_append, List.nil_append] at hAccount
  refine ⟨t, hCursor, ?_, hAccount.indexed, ?_, ?_, ?_⟩
  · rcases hEnds with ⟨cells, hLinked, hItems, _⟩
    exact ⟨_, hLinked.represents, hItems.symm⟩
  · exact
      (List.sublist_append_left _ _).trans hAccount.bounded
  · intro n hMem
    exact (hAccount.finished n hMem).2
  · intro n hMem
    exact (hAccount.stopped n hMem).2

/-
  During the first visit an object is added, and during the
  second one the first is removed.
-/
theorem visits_what_remains_growing :
    ∃ r,
      machine.run
          (start { address := 0, root := some 100, count := 2 },
            { process := Process.initial
              cell := fun a =>
                if a = 100 then
                  some (listEntry none (some 200) ⟨1⟩)
                else if a = 200 then
                  some (listEntry (some 100) none ⟨2⟩)
                else none })
          [.visit,
            .call (.addObject (some ⟨3⟩) (some 300)),
            .answer true,
            .visit,
            .call (.removeObjectAtIndex 0),
            .answer true,
            .visit,
            .answer true,
            .visit] =
          some
            ([.ok (.visited (some ⟨1⟩) 1),
              .ok (.result (.flag true)),
              .ok .goesOn,
              .ok (.visited (some ⟨2⟩) 2),
              .ok (.result (.item (some ⟨1⟩))),
              .ok .goesOn,
              .ok (.visited (some ⟨3⟩) 3),
              .ok .goesOn,
              .ok (.finished 3)], r) ∧
        KListHead.Stores (r.1.list, r.2) [⟨2⟩, ⟨3⟩] := by
  have hValues :
      (machine.run
          (start { address := 0, root := some 100, count := 2 },
            { process := Process.initial
              cell := fun a =>
                if a = 100 then
                  some (listEntry none (some 200) ⟨1⟩)
                else if a = 200 then
                  some (listEntry (some 100) none ⟨2⟩)
                else none })
          [.visit,
            .call (.addObject (some ⟨3⟩) (some 300)),
            .answer true,
            .visit,
            .call (.removeObjectAtIndex 0),
            .answer true,
            .visit,
            .answer true,
            .visit]).map Prod.fst =
        some
          [.ok (.visited (some ⟨1⟩) 1),
            .ok (.result (.flag true)),
            .ok .goesOn,
            .ok (.visited (some ⟨2⟩) 2),
            .ok (.result (.item (some ⟨1⟩))),
            .ok .goesOn,
            .ok (.visited (some ⟨3⟩) 3),
            .ok .goesOn,
            .ok (.finished 3)] :=
    rfl
  rcases Option.map_eq_some_iff.mp hValues with
    ⟨⟨values, r⟩, hRun, hSame⟩
  simp only at hSame
  subst hSame
  refine ⟨r, hRun, ?_⟩
  have hCell :
      KListHead.Stores
        (KListHead.mk 0 (some 100) 2,
          { process := Process.initial
            cell := fun a =>
              if a = 100 then
                some (listEntry none (some 200) ⟨1⟩)
              else if a = 200 then
                some (listEntry (some 100) none ⟨2⟩)
              else none })
        [⟨1⟩, ⟨2⟩] :=
    ⟨{ address := 0, items := [⟨1⟩, ⟨2⟩] },
      ⟨[(100, ⟨1⟩), (200, ⟨2⟩)],
        ⟨⟨rfl, rfl, trivial⟩, by decide, rfl, rfl⟩, rfl, rfl⟩,
      rfl⟩
  rcases
      visits_what_remains _ _ _ _ _ _ hCell (by decide) hRun
    with ⟨t, hCursor, hEnds, _⟩
  have hItems : t.items = [⟨2⟩, ⟨3⟩] := by
    have hEnd := congrArg (Option.map Prod.snd) hCursor
    exact
      (congrArg ListCursor.items (Option.some.inj hEnd)).symm
  rw [hItems] at hEnds
  exact hEnds

/-
  Where the callback removes the item it was called with, the
  loop reads the freed entry.
-/
example :
    ((machine.run
      (start { address := 0, root := some 100, count := 1 },
        { process := Process.initial
          cell := fun a =>
            if a = 100 then some (listEntry none none ⟨1⟩)
            else none })
      [.visit, .call (.removeObjectAtIndex 0),
        .answer true]).map Prod.fst) =
      some
        [.ok (.visited (some ⟨1⟩) 1),
          .ok (.result (.item (some ⟨1⟩))),
          .error .dangling] :=
  rfl

end ListIteration

end KDoth
