import KDoth.Collections.KArraySequence
import KDoth.Collections.KListSequence

/-
  Iteration over lists and arrays with a callback that has a
  state of its own and does not change the container.

  Key definitions include:
    * `Visit`
    * `Iteration`
    * `KListHead.iterate`
    * `KArrayHead.iterate`
    * `ItemSequence.iterate`
    * `Iteration.Faithful`

  Key theorems include:
    * `KListHead.wp_iterate`
    * `KArrayHead.wp_iterate`
    * `ItemSequence.faithful_iterate`
    * `iterations_agree_iff`
    * `iterations_disagree`
-/

------------------------------------------------------------
-- Callbacks
------------------------------------------------------------

namespace KDoth

/-
  A callback gets an object, an index and its user data. It
  returns whether to go on.
-/
abbrev Iterator (α σ : Type) :=
  Option α → Nat → σ → Bool × σ

/- One call of the callback, with what it returned. -/
structure Visit (α : Type) where
  object : Option α
  index : Nat
  returned : Bool
deriving DecidableEq

/-
  The calls made in order, the count that is returned, and
  the user data at the end.
-/
structure Iteration (α σ : Type) where
  visits : List (Visit α)
  count : Nat
  userData : σ

namespace Iteration

variable {α σ : Type}

/- A call made before the others. -/
def after (v : Visit α) (t : Iteration α σ) : Iteration α σ :=
  { t with visits := v :: t.visits }

end Iteration

end KDoth

------------------------------------------------------------
-- Loops
------------------------------------------------------------

namespace KDoth

open MemoryCall

variable {α σ : Type}

/- The loop of `KListIterate`. -/
def KListHead.iterateEntries
    (iterator : Iterator α σ) :
    Nat → Option Nat → Nat → σ →
      NodeCall α (Iteration α σ)
| _, none, i, userData =>
    pure { visits := [], count := i, userData := userData }
| 0, some _, _, _ => throw (.stop .outOfFuel)
| turns + 1, some entry, i, userData => do
    let node ← load entry
    let i := i + 1
    let result := iterator node.item i userData
    let visit : Visit α :=
      { object := node.item
        index := i
        returned := result.1 }
    if result.1 then
      let rest ←
        iterateEntries iterator turns node.next i result.2
      pure (rest.after visit)
    else
      pure
        { visits := [visit], count := i, userData := result.2 }

/- `KListIterate` -/
def KListHead.iterate
    (list : KListHead)
    (iterator : Option (Iterator α σ))
    (userData : σ) :
    NodeCall α (Iteration α σ) :=
  match iterator with
  | none =>
      pure { visits := [], count := 0, userData := userData }
  | some iterator =>
      iterateEntries iterator list.count list.root 0 userData

/- The loop of `KArrayIterate`. -/
def KArrayHead.iterateItems
    (array : KArrayHead)
    (iterator : Iterator α σ) :
    Nat → Nat → Nat → σ →
      BlockCall α (Iteration α σ)
| 0, _, iterated, userData =>
    pure
      { visits := []
        count := iterated
        userData := userData }
| turns + 1, i, iterated, userData => do
    let iterated := iterated + 1
    let object ← array.getObjectAtIndex i
    let result := iterator object i userData
    let visit : Visit α :=
      { object := object, index := i, returned := result.1 }
    if result.1 then
      let rest ←
        iterateItems array iterator turns (i + 1) iterated
          result.2
      pure (rest.after visit)
    else
      pure
        { visits := [visit]
          count := iterated
          userData := result.2 }

/- `KArrayIterate` -/
def KArrayHead.iterate
    (array : KArrayHead)
    (iterator : Option (Iterator α σ))
    (userData : σ) :
    BlockCall α (Iteration α σ) :=
  match iterator with
  | none =>
      pure { visits := [], count := 0, userData := userData }
  | some iterator =>
      iterateItems array iterator array.getLength 0 0 userData

end KDoth

------------------------------------------------------------
-- Iteration Over A Sequence
------------------------------------------------------------

namespace KDoth

variable {α σ : Type}

/-
  The callback is called with the items in order, until it
  returns false, and with indices that start at a number.
-/
def ItemSequence.iterate
    (iterator : Iterator α σ) :
    Nat → List α → σ → Iteration α σ
| _, [], userData =>
    { visits := [], count := 0, userData := userData }
| i, x :: items, userData =>
    let result := iterator (some x) i userData
    let visit : Visit α :=
      { object := some x, index := i, returned := result.1 }
    if result.1 then
      let rest := iterate iterator (i + 1) items result.2
      { visits := visit :: rest.visits
        count := rest.count + 1
        userData := rest.userData }
    else
      { visits := [visit], count := 1, userData := result.2 }

/-
  What both headers promise, given which object is returned
  at which index: the index passed with an object is its own,
  the iteration ends right after the first call that returns
  false, and the count is that of the calls, that of all the
  items if no call returned false.
-/
structure Iteration.Faithful
    (t : Iteration α σ)
    (objectAt : Nat → Option α → Prop)
    (length : Nat) : Prop where
  positions : ∀ v ∈ t.visits, objectAt v.index v.object
  stops : ∀ v ∈ t.visits.dropLast, v.returned = true
  count : t.count = t.visits.length
  complete :
    (∀ v ∈ t.visits, v.returned = true) → t.count = length

namespace ItemSequence

variable {iterator : Iterator α σ}

theorem count_iterate
    (i : Nat)
    (items : List α)
    (userData : σ) :
    (iterate iterator i items userData).count =
      (iterate iterator i items userData).visits.length := by
  induction items generalizing i userData with
  | nil => rfl
  | cons x items ih =>
      unfold iterate
      by_cases hGoes : (iterator (some x) i userData).1 = true
      · simp only [if_pos hGoes, ih, List.length_cons]
      · simp only [if_neg hGoes, List.length_singleton]

theorem stops_iterate
    (i : Nat)
    (items : List α)
    (userData : σ) :
    ∀ v ∈
        (iterate iterator i items userData).visits.dropLast,
      v.returned = true := by
  induction items generalizing i userData with
  | nil => simp [iterate]
  | cons x items ih =>
      unfold iterate
      by_cases hGoes : (iterator (some x) i userData).1 = true
      · simp only [if_pos hGoes]
        intro v hMem
        cases hRest :
            (iterate iterator (i + 1) items
              (iterator (some x) i userData).2).visits with
        | nil => simp [hRest] at hMem
        | cons w rest =>
            have hTail := ih (i + 1)
              (iterator (some x) i userData).2
            rw [hRest] at hMem hTail
            rw [List.dropLast_cons_cons] at hMem
            rcases List.mem_cons.mp hMem with hFirst | hLater
            · rw [hFirst]
              exact hGoes
            · exact hTail v hLater
      · simp [if_neg hGoes]

theorem positions_iterate
    (before items : List α)
    (userData : σ) :
    ∀ v ∈
        (iterate iterator before.length items
          userData).visits,
      v.object = (before ++ items)[v.index]? := by
  induction items generalizing before userData with
  | nil => simp [iterate]
  | cons x items ih =>
      have hHere :
          some x = (before ++ x :: items)[before.length]? := by
        simp
      unfold iterate
      by_cases hGoes :
          (iterator (some x) before.length userData).1 = true
      · simp only [if_pos hGoes]
        intro v hMem
        rcases List.mem_cons.mp hMem with hFirst | hLater
        · rw [hFirst]
          exact hHere
        · have hRest :=
            ih (before ++ [x])
              (iterator (some x) before.length userData).2
          simp only [List.length_append,
            List.length_singleton, List.append_assoc,
            List.singleton_append] at hRest
          exact hRest v hLater
      · simp only [if_neg hGoes]
        intro v hMem
        rw [List.mem_singleton.mp hMem]
        exact hHere

theorem complete_iterate
    (i : Nat)
    (items : List α)
    (userData : σ)
    (hAll :
      ∀ v ∈ (iterate iterator i items userData).visits,
        v.returned = true) :
    (iterate iterator i items userData).count =
      items.length := by
  induction items generalizing i userData with
  | nil => rfl
  | cons x items ih =>
      unfold iterate at hAll ⊢
      by_cases hGoes : (iterator (some x) i userData).1 = true
      · simp only [if_pos hGoes] at hAll ⊢
        have hRest :=
          ih (i + 1) (iterator (some x) i userData).2
            (fun v hMem =>
              hAll v (List.mem_cons_of_mem _ hMem))
        rw [hRest, List.length_cons]
      · simp only [if_neg hGoes] at hAll
        have hFirst := hAll _ (List.mem_singleton.mpr rfl)
        exact absurd hFirst hGoes

/- Counting from zero the iteration is as promised. -/
theorem faithful_iterate
    (iterator : Iterator α σ)
    (items : List α)
    (userData : σ)
    {objectAt : Nat → Option α → Prop}
    (hObjectAt : ∀ i, objectAt i items[i]?) :
    (iterate iterator 0 items userData).Faithful objectAt
      items.length where
  positions := by
    intro v hMem
    have hItem : v.object = items[v.index]? :=
      positions_iterate [] items userData v hMem
    rw [hItem]
    exact hObjectAt v.index
  stops := stops_iterate 0 items userData
  count := count_iterate 0 items userData
  complete := complete_iterate 0 items userData

end ItemSequence

end KDoth

------------------------------------------------------------
-- What The Loops Do
------------------------------------------------------------

namespace KDoth

open Command MemoryCall BlockCall

variable {α σ : Type} {iterator : Iterator α σ}

/- The calls of an iteration, counted from a number. -/
def ItemSequence.iterateFrom
    (iterator : Iterator α σ)
    (counted i : Nat)
    (items : List α)
    (userData : σ) : Iteration α σ :=
  let t := iterate iterator i items userData
  { t with count := counted + t.count }

/-
  The loop over the nodes counts before it calls, so the
  first index is one.
-/
theorem KListHead.wp_iterateEntries
    {s : NodeMemory α}
    {p : Option Nat}
    {cells : List (Nat × α)}
    {turns i : Nat}
    {userData : σ}
    (hChain : Chain listEntry s.cell p cells none)
    (hTurns : cells.length ≤ turns) :
    wp
      (iterateEntries iterator turns (Chain.first cells none) i
        userData)
      (fun t s' =>
        t =
            ItemSequence.iterateFrom iterator i (i + 1)
              (cells.map Prod.snd) userData ∧
          s' = s)
      (fun _ _ => False) s := by
  induction cells generalizing p turns i userData with
  | nil => cases turns <;> exact ⟨rfl, rfl⟩
  | cons c cells ih =>
      cases turns with
      | zero => cases hTurns
      | succ turns =>
          show wp (load c.1 >>= _) _ _ s
          simp only [wp_bind, wp_load hChain.1]
          unfold ItemSequence.iterateFrom ItemSequence.iterate
          by_cases hGoes :
              (iterator (some c.2) (i + 1) userData).1 = true
          · have hItem :
                (iterator
                    (listEntry p (Chain.first cells none)
                      c.2).item
                    (i + 1) userData).1 = true := hGoes
            simp only [List.map_cons, if_pos hGoes, if_pos hItem,
              wp_bind, wp_pure]
            apply wp_imp
              (ih hChain.2 (Nat.le_of_succ_le_succ hTurns))
            intro t s' hRest
            refine ⟨?_, hRest.2⟩
            rw [hRest.1]
            simp only [ItemSequence.iterateFrom,
              Iteration.after, listEntry]
            congr 1
            omega
          · have hItem :
                ¬ (iterator
                    (listEntry p (Chain.first cells none)
                      c.2).item
                    (i + 1) userData).1 = true := hGoes
            simp only [List.map_cons, if_neg hGoes, if_neg hItem,
              wp_pure]
            exact ⟨rfl, trivial⟩

/- `KListIterate` passes the index of the next object. -/
theorem KListHead.wp_iterate
    (iterator : Iterator α σ)
    (userData : σ)
    {s : NodeMemory α}
    {list : KListHead}
    {value : KList α}
    (hRepresents : Represents s list value) :
    wp (list.iterate (some iterator) userData)
      (fun t s' =>
        t = ItemSequence.iterate iterator 1 value.items
            userData ∧
          s' = s)
      (fun _ _ => False) s := by
  rcases hRepresents with ⟨cells, hLinked, _, hItems⟩
  unfold iterate
  simp only
  rw [hLinked.root]
  apply wp_imp
    (wp_iterateEntries hLinked.chain
      (Nat.le_of_eq hLinked.count.symm))
  intro t s' hEnd
  refine ⟨?_, hEnd.2⟩
  rw [hEnd.1, hItems]
  simp [ItemSequence.iterateFrom]

/- The loop over the elements calls with their positions. -/
theorem KArrayHead.wp_iterateItems
    {s : Memory (Block α)}
    {array : KArrayHead}
    {l r : List α}
    {iterated : Nat}
    {userData : σ}
    (hStores : Stores s.cell array (l ++ r)) :
    wp
      (iterateItems array iterator r.length l.length iterated
        userData)
      (fun t s' =>
        t =
            ItemSequence.iterateFrom iterator iterated l.length
              r userData ∧
          s' = s)
      (fun _ _ => False) s := by
  induction r generalizing l iterated userData with
  | nil => exact ⟨rfl, rfl⟩
  | cons x r ih =>
      have hItem : (l ++ x :: r)[l.length]? = some x := by simp
      simp only [List.length_cons, iterateItems, wp_bind]
      apply wp_getObjectAtIndex hStores
      rw [hItem]
      unfold ItemSequence.iterateFrom ItemSequence.iterate
      by_cases hGoes :
          (iterator (some x) l.length userData).1 = true
      · simp only [if_pos hGoes, wp_bind, wp_pure]
        have hNext :
            Stores s.cell array ((l ++ [x]) ++ r) := by
          simpa using hStores
        have hLength : l.length + 1 = (l ++ [x]).length := by
          simp
        rw [hLength]
        apply wp_imp (ih hNext)
        intro t s' hRest
        refine ⟨?_, hRest.2⟩
        rw [hRest.1]
        simp only [ItemSequence.iterateFrom, Iteration.after]
        congr 1
        omega
      · simp [if_neg hGoes]

/- `KArrayIterate` passes the index of the object. -/
theorem KArrayHead.wp_iterate
    (iterator : Iterator α σ)
    (userData : σ)
    {s : Memory (Block α)}
    {array : KArrayHead}
    {items : List α}
    (hStores : Stores s.cell array items) :
    wp (array.iterate (some iterator) userData)
      (fun t s' =>
        t = ItemSequence.iterate iterator 0 items userData ∧
          s' = s)
      (fun _ _ => False) s := by
  have hLength : array.getLength = items.length :=
    hStores.length
  unfold iterate
  simp only
  rw [hLength]
  apply wp_imp (wp_iterateItems (l := []) hStores)
  intro t s' hEnd
  refine ⟨?_, hEnd.2⟩
  rw [hEnd.1]
  simp [ItemSequence.iterateFrom]

end KDoth

------------------------------------------------------------
-- Agreement
------------------------------------------------------------

namespace KDoth

open Command

variable {α σ : Type}

/- A first call has the index that the iteration starts at. -/
theorem ItemSequence.head_iterate
    (iterator : Iterator α σ)
    (i : Nat)
    (x : α)
    (items : List α)
    (userData : σ) :
    (iterate iterator i (x :: items)
      userData).visits.head?.map Visit.index = some i := by
  unfold iterate
  by_cases hGoes : (iterator (some x) i userData).1 = true
  · simp [if_pos hGoes]
  · simp [if_neg hGoes]

/- What `KListGetObjectAtIndex` returns. -/
def KListHead.ObjectAt
    (list : KListHead)
    (nodes : NodeMemory α)
    (index : Nat)
    (object : Option α) : Prop :=
  Returns (list.getObjectAtIndex index) nodes
    (fun o s => o = object ∧ s = nodes)

/- What `KArrayGetObjectAtIndex` returns. -/
def KArrayHead.ObjectAt
    (array : KArrayHead)
    (blocks : Memory (Block α))
    (index : Nat)
    (object : Option α) : Prop :=
  Returns (array.getObjectAtIndex index) blocks
    (fun o s => o = object ∧ s = blocks)

/-
  Both iterations return, make the same calls, and are as
  promised about their own container.
-/
def IterationsAgree
    (iterator : Iterator α σ)
    (userData : σ)
    (list : KListHead)
    (nodes : NodeMemory α)
    (array : KArrayHead)
    (blocks : Memory (Block α))
    (length : Nat) : Prop :=
  ∃ l a,
    Returns (list.iterate (some iterator) userData) nodes
        (fun t s => t = l ∧ s = nodes) ∧
      Returns (array.iterate (some iterator) userData) blocks
        (fun t s => t = a ∧ s = blocks) ∧
      l.visits = a.visits ∧
      l.Faithful (list.ObjectAt nodes) length ∧
      a.Faithful (array.ObjectAt blocks) length

/- The array's iteration is always as promised. -/
theorem KArrayHead.faithful_iterate
    {array : KArrayHead}
    {blocks : Memory (Block α)}
    {items : List α}
    (iterator : Iterator α σ)
    (userData : σ)
    (hStores : Stores blocks.cell array items) :
    (ItemSequence.iterate iterator 0 items
      userData).Faithful (array.ObjectAt blocks)
        items.length := by
  apply ItemSequence.faithful_iterate
  intro i
  exact
    returns_iff_wp.mpr
      (wp_getObjectAtIndex hStores ⟨rfl, rfl⟩)

/-
  The iteration over a list is not that over an array with
  the same items unless there are none.
-/
theorem no_items_of_agree
    {iterator : Iterator α σ}
    {userData : σ}
    {value : KList α}
    {list : KListHead}
    {nodes : NodeMemory α}
    {array : KArrayHead}
    {blocks : Memory (Block α)}
    (hList : KListHead.Represents nodes list value)
    (hArray :
      KArrayHead.Stores blocks.cell array value.items)
    (hAgree :
      IterationsAgree iterator userData list nodes array blocks
        value.items.length) :
    value.items = [] := by
  have hListRuns :=
    returns_iff_wp.mpr
      (KListHead.wp_iterate iterator userData hList)
  have hArrayRuns :=
    returns_iff_wp.mpr
      (KArrayHead.wp_iterate iterator userData hArray)
  rcases hAgree with ⟨l, a, hListReturns, hArrayReturns,
    hSame, _⟩
  rw [hListReturns.value_unique hListRuns,
    hArrayReturns.value_unique hArrayRuns] at hSame
  cases hItems : value.items with
  | nil => rfl
  | cons x items =>
      -- The first indices are one and zero.
      have hFirst :=
        congrArg (fun l => l.head?.map Visit.index) hSame
      simp [hItems, ItemSequence.head_iterate] at hFirst

/-
  A list and an array with the same items are iterated over
  alike exactly if there are no items.
-/
theorem iterations_agree_iff
    (iterator : Iterator α σ)
    (userData : σ)
    (value : KList α)
    (list : KListHead)
    (nodes : NodeMemory α)
    (array : KArrayHead)
    (blocks : Memory (Block α))
    (hList : KListHead.Represents nodes list value)
    (hArray :
      KArrayHead.Stores blocks.cell array value.items) :
    IterationsAgree iterator userData list nodes array blocks
        value.items.length ↔
      value.items = [] := by
  constructor
  · intro hAgree
    exact no_items_of_agree hList hArray hAgree
  · intro hEmpty
    have hListRuns :=
      returns_iff_wp.mpr
        (KListHead.wp_iterate iterator userData hList)
    have hArrayRuns :=
      returns_iff_wp.mpr
        (KArrayHead.wp_iterate iterator userData hArray)
    refine ⟨_, _, hListRuns, hArrayRuns, ?_, ?_, ?_⟩
    · simp [hEmpty, ItemSequence.iterate]
    · refine ⟨?_, ?_, ?_, ?_⟩ <;>
        simp [ItemSequence.iterate, hEmpty]
    · exact KArrayHead.faithful_iterate iterator userData hArray

/- A list of one object, in one node. -/
def KListHead.single : KListHead where
  address := 0
  root := some 1
  count := 1

def KListHead.singleNodes : NodeMemory Nat where
  process := Process.initial
  cell := Function.update (fun _ => none) 1
    (some (listEntry none none 7))

/- An array of one object, in a block of eight bytes. -/
def KArrayHead.single : KArrayHead where
  address := 0
  length := 1
  items := { address := 0, size := 8, buffer := some 1 }

def KArrayHead.singleBlocks : Memory (Block Nat) where
  process := Process.initial
  cell := Function.update (fun _ => none) 1
    (some ((Block.fresh 8).write 0 7))

theorem KListHead.represents_single :
    Represents singleNodes single
      { address := 0, items := [7] } := by
  refine ⟨[(1, 7)], ⟨?_, ?_, rfl, rfl⟩, rfl, rfl⟩
  · exact ⟨rfl, trivial⟩
  · simp [Chain.addresses]

theorem KArrayHead.stores_single :
    Stores singleBlocks.cell single [7] := by
  refine ⟨rfl, (Block.fresh 8).write 0 7, ?_, ?_⟩
  · exact ⟨rfl, rfl⟩
  · intro i x hItem
    cases i with
    | zero => exact ⟨by decide, hItem⟩
    | succ i => cases hItem

/- The one object is visited with another index each time. -/
theorem iterations_agree_single :
    IterationsAgree (fun _ _ n => (true, n + 1)) 0
        KListHead.single KListHead.singleNodes
        KArrayHead.single KArrayHead.singleBlocks 1 ↔
      [7] = ([] : List Nat) :=
  iterations_agree_iff (fun _ _ n => (true, n + 1)) 0
    { address := 0, items := [7] } KListHead.single
    KListHead.singleNodes KArrayHead.single
    KArrayHead.singleBlocks KListHead.represents_single
    KArrayHead.stores_single

/-
  A list and an array hold the same object. It is visited as
  number one of the list, where there is no object, and as
  number zero of the array.
-/
theorem iterations_disagree :
    KListHead.Represents KListHead.singleNodes
        KListHead.single { address := 0, items := [7] } ∧
      KArrayHead.Stores KArrayHead.singleBlocks.cell
        KArrayHead.single [7] ∧
      KListHead.single.ObjectAt KListHead.singleNodes 1
        none ∧
      ¬ IterationsAgree (fun _ _ n => (true, n + 1)) 0
          KListHead.single KListHead.singleNodes
          KArrayHead.single KArrayHead.singleBlocks 1 := by
  refine
    ⟨KListHead.represents_single, KArrayHead.stores_single,
      ⟨none, KListHead.singleNodes, rfl, rfl, rfl⟩, ?_⟩
  intro hAgree
  have hEmpty :=
    no_items_of_agree KListHead.represents_single
      KArrayHead.stores_single hAgree
  cases hEmpty

end KDoth
