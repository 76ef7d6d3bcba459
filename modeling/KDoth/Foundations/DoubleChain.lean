import Mathlib.Logic.Function.Basic
import Mathlib.Data.List.Nodup

/-
  Doubly linked chains in a memory of nodes. A chain is
  described by its cells, the addresses with the values they
  store, and by the links that lead into it and out of it.

  Key definitions include:
    * `Chain`
    * `Chain.first`
    * `Chain.last`

  Key theorems include:
    * `chain_append`
    * `Chain.congr`
    * `Chain.setEnd`
    * `Chain.setStart`
    * `Chain.get`
    * `Chain.first_drop`
    * `Chain.last_take`
-/

------------------------------------------------------------
-- Chains
------------------------------------------------------------

namespace KDoth

namespace Chain

variable {A V : Type}

/- The link into the cells, where `e` is behind them. -/
def first
    (cells : List (A × V))
    (e : Option A) : Option A :=
  match cells with
  | [] => e
  | c :: _ => some c.1

/- The link back from behind the cells, after `p`. -/
def last : Option A → List (A × V) → Option A
| p, [] => p
| _, c :: cells => last (some c.1) cells

/- The addresses of the cells. -/
def addresses (cells : List (A × V)) : List A :=
  cells.map Prod.fst

end Chain

/-
  The memory stores the cells as a chain that comes after `p`
  and leads to `e`. A node is made of the links to the cells
  before and after it and of its value.
-/
def Chain
    {A V N : Type}
    (node : Option A → Option A → V → N)
    (m : A → Option N) :
    Option A → List (A × V) → Option A → Prop
| _, [], _ => True
| p, c :: cells, e =>
    m c.1 = some (node p (Chain.first cells e) c.2) ∧
      Chain node m (some c.1) cells e

end KDoth

------------------------------------------------------------
-- Joining Chains
------------------------------------------------------------

namespace KDoth

namespace Chain

variable {A V N : Type}
variable {node : Option A → Option A → V → N}
variable {m m' : A → Option N}
variable {p e : Option A}

theorem first_append
    (l r : List (A × V)) :
    first (l ++ r) e = first l (first r e) := by
  cases l with
  | nil => rfl
  | cons c l => rfl

theorem last_append
    (l r : List (A × V)) :
    last p (l ++ r) = last (last p l) r := by
  induction l generalizing p with
  | nil => rfl
  | cons c l ih => exact ih

@[simp] theorem last_concat
    (l : List (A × V))
    (c : A × V) :
    last p (l ++ [c]) = some c.1 := by
  rw [last_append]
  rfl

/- The last cell of a chain that has one is one of its cells. -/
theorem last_cases
    (l : List (A × V)) :
    (l = [] ∧ last p l = p) ∨
      ∃ l' c, l = l' ++ [c] ∧ last p l = some c.1 := by
  rcases List.eq_nil_or_concat l with hNil | ⟨l', c, hEq⟩
  · left
    subst hNil
    exact ⟨rfl, rfl⟩
  · right
    rw [List.concat_eq_append] at hEq
    subst hEq
    exact ⟨l', c, rfl, last_concat l' c⟩

/- A sequence before and behind one of its items. -/
theorem split_at
    {B : Type}
    {items : List B}
    {i : Nat}
    {x : B}
    (hItem : items[i]? = some x) :
    ∃ l r, items = l ++ x :: r ∧ i = l.length := by
  rcases List.getElem?_eq_some_iff.mp hItem with ⟨hLt, hGet⟩
  have hLength : (items.take i).length = i :=
    List.length_take_of_le (Nat.le_of_lt hLt)
  refine ⟨items.take i, items.drop (i + 1), ?_, hLength.symm⟩
  have hDrop := List.drop_eq_getElem_cons hLt
  rw [hGet] at hDrop
  rw [← hDrop, List.take_append_drop]

/- The link into a rest of the cells. -/
theorem first_drop
    (cells : List (A × V))
    (i : Nat) :
    first (cells.drop i) none = (addresses cells)[i]? := by
  unfold addresses
  rw [List.getElem?_map, ← List.head?_drop]
  cases cells.drop i with
  | nil => rfl
  | cons c rest => rfl

/- The link back from behind the first cells. -/
theorem last_take
    (cells : List (A × V))
    (i : Nat)
    (hLt : i < cells.length) :
    last none (cells.take (i + 1)) =
      (addresses cells)[i]? := by
  unfold addresses
  rw [List.take_add_one, List.getElem?_map,
    List.getElem?_eq_getElem hLt, Option.toList_some,
    last_concat]
  rfl

/- A chain may be cut anywhere. -/
theorem chain_append
    (l r : List (A × V)) :
    Chain node m p (l ++ r) e ↔
      Chain node m p l (first r e) ∧
        Chain node m (last p l) r e := by
  induction l generalizing p with
  | nil => simp [Chain, last]
  | cons c l ih =>
      simp only [List.cons_append, Chain, first_append, ih,
        last, and_assoc]

end Chain

variable {A V N : Type}
variable {node : Option A → Option A → V → N}
variable {m m' : A → Option N}
variable {p e : Option A}

/- Only the memory at the cells matters. -/
theorem Chain.congr
    {cells : List (A × V)}
    (hChain : Chain node m p cells e)
    (hSame : ∀ a ∈ Chain.addresses cells, m' a = m a) :
    Chain node m' p cells e := by
  induction cells generalizing p with
  | nil => trivial
  | cons c cells ih =>
      rcases hChain with ⟨hNode, hTail⟩
      constructor
      · rw [hSame c.1 (by simp [Chain.addresses]), hNode]
      · apply ih hTail
        intro a hMem
        exact hSame a (List.mem_cons_of_mem _ hMem)

/- The cells of a chain are in the memory. -/
theorem Chain.live
    {cells : List (A × V)}
    (hChain : Chain node m p cells e)
    {a : A}
    (hMem : a ∈ Chain.addresses cells) :
    m a ≠ none := by
  induction cells generalizing p with
  | nil => cases hMem
  | cons c cells ih =>
      rcases hChain with ⟨hNode, hTail⟩
      rcases List.mem_cons.mp hMem with hSelf | hRest
      · rw [hSelf, hNode]
        nofun
      · exact ih hTail hRest

/- The node of a cell, by its position. -/
theorem Chain.get
    {cells : List (A × V)}
    (hChain : Chain node m p cells e)
    {i : Nat}
    {c : A × V}
    (hCell : cells[i]? = some c) :
    m c.1 =
      some
        (node (Chain.last p (cells.take i))
          (Chain.first (cells.drop (i + 1)) e) c.2) := by
  have hLt : i < cells.length :=
    (List.getElem?_eq_some_iff.mp hCell).1
  have hSplit :
      cells = cells.take i ++ c :: cells.drop (i + 1) := by
    have hDrop := List.drop_eq_getElem_cons hLt
    have hGet : cells[i] = c :=
      (List.getElem?_eq_some_iff.mp hCell).2
    rw [hGet] at hDrop
    rw [← hDrop, List.take_append_drop]
  rw [hSplit, Chain.chain_append] at hChain
  exact hChain.2.1

end KDoth

------------------------------------------------------------
-- Changing The Links At The Ends
------------------------------------------------------------

namespace KDoth

variable {A V N : Type} [DecidableEq A]
variable {node : Option A → Option A → V → N}
variable {m : A → Option N}
variable {p e : Option A}

/- Memory that is no cell of a chain may be changed. -/
theorem Chain.update
    {cells : List (A × V)}
    {a : A}
    {n : Option N}
    (hChain : Chain node m p cells e)
    (hNot : a ∉ Chain.addresses cells) :
    Chain node (Function.update m a n) p cells e := by
  apply hChain.congr
  intro b hMem
  apply Function.update_of_ne
  intro hSame
  rw [hSame] at hMem
  exact hNot hMem

/- The last cell is made to lead elsewhere. -/
theorem Chain.setEnd
    {l : List (A × V)}
    {c : A × V}
    {e' : Option A}
    (hChain : Chain node m p (l ++ [c]) e)
    (hNodup : (Chain.addresses (l ++ [c])).Nodup) :
    Chain node
      (Function.update m c.1
        (some (node (Chain.last p l) e' c.2)))
      p (l ++ [c]) e' := by
  have hNot : c.1 ∉ Chain.addresses l := by
    simp only [Chain.addresses, List.map_append,
      List.map_cons, List.map_nil] at hNodup
    have hApart := List.disjoint_of_nodup_append hNodup
    intro hMem
    exact hApart hMem (by simp)
  rw [Chain.chain_append] at hChain ⊢
  refine ⟨hChain.1.update hNot, ?_, trivial⟩
  rw [Function.update_self]
  rfl

/- The first cell is made to come after another. -/
theorem Chain.setStart
    {r : List (A × V)}
    {c : A × V}
    {p' : Option A}
    (hChain : Chain node m p (c :: r) e)
    (hNodup : (Chain.addresses (c :: r)).Nodup) :
    Chain node
      (Function.update m c.1
        (some (node p' (Chain.first r e) c.2)))
      p' (c :: r) e := by
  have hNot : c.1 ∉ Chain.addresses r :=
    (List.nodup_cons.mp hNodup).1
  refine ⟨?_, hChain.2.update hNot⟩
  rw [Function.update_self]

end KDoth
