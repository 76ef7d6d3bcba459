import Mathlib.Algebra.BigOperators.Group.Finset.Basic
import Mathlib.Algebra.Order.BigOperators.Group.Finset
import Mathlib.Data.Finset.Max
import Mathlib.Data.List.Perm.Basic
import Mathlib.Logic.Function.Basic

/-
  Reference counts on a graph of nodes that hold references
  to each other.

  Besides the references between nodes there are those of a
  base, which stay, and pending ones, which are about to be
  given up. The counts are balanced if they add up to all of
  these, and no reference leaves the graph.

  Key definitions include:
    * `RefGraph`
    * `RefGraph.inDegree`
    * `RefGraph.Balanced`
    * `RefGraph.Graded`
    * `RefGraph.Rooted`
    * `RefGraph.LeavesInOrder`

  Key theorems include:
    * `RefGraph.Graded.insert`
    * `RefGraph.Balanced.drop`
    * `RefGraph.Balanced.die`
    * `RefGraph.Balanced.setOut`
    * `RefGraph.Balanced.insert`
    * `RefGraph.Balanced.mem_of_rooted`
    * `RefGraph.Balanced.nodes_eq_empty`
    * `RefGraph.LeavesInOrder.trans`
    * `RefGraph.LeavesInOrder.first`
-/

------------------------------------------------------------
-- Graphs And Balance
------------------------------------------------------------

namespace KDoth

structure RefGraph (V : Type) where
  nodes : Finset V
  out : V → List V

namespace RefGraph

variable {V : Type} [DecidableEq V]

/- The references that nodes hold to a node. -/
def inDegree (g : RefGraph V) (o : V) : Nat :=
  ∑ a ∈ g.nodes, (g.out a).count o

/- The graph without a node. -/
def erase (g : RefGraph V) (o : V) : RefGraph V :=
  { g with nodes := g.nodes.erase o }

/- The graph with other references held by one node. -/
def setOut (g : RefGraph V) (a : V) (l : List V) : RefGraph V :=
  { g with out := Function.update g.out a l }

/- The graph with one more node. -/
def insert (g : RefGraph V) (o : V) (l : List V) : RefGraph V where
  nodes := Insert.insert o g.nodes
  out := Function.update g.out o l

/-
  Counts are positive and add up to the references of the
  base, the pending ones and those of the nodes. Nothing
  refers to what is not a node.
-/
structure Balanced
    (g : RefGraph V)
    (count base : V → Nat)
    (pending : List V) : Prop where
  counts :
    ∀ o ∈ g.nodes,
      count o = base o + pending.count o + g.inDegree o
  positive : ∀ o ∈ g.nodes, 0 < count o
  closed :
    ∀ o, o ∉ g.nodes →
      base o + pending.count o + g.inDegree o = 0

/- References lead down, so there is no cycle of them. -/
def Graded (g : RefGraph V) : Prop :=
  ∃ rank : V → Nat,
    ∀ a ∈ g.nodes, ∀ o ∈ g.out a, rank o < rank a

/- Nodes that are held by the base, directly or not. -/
inductive Rooted
    (g : RefGraph V)
    (base : V → Nat) : V → Prop
| root {o : V}
    (hBase : 0 < base o) :
    Rooted g base o
| edge {a o : V}
    (hFrom : Rooted g base a)
    (hNode : a ∈ g.nodes)
    (hEdge : o ∈ g.out a) :
    Rooted g base o

end RefGraph

end KDoth

------------------------------------------------------------
-- Degrees
------------------------------------------------------------

namespace KDoth

namespace RefGraph

variable {V : Type} [DecidableEq V]
variable {g : RefGraph V} {a o : V}

/- What a node holds is part of the degrees. -/
theorem inDegree_erase_add
    (hNode : a ∈ g.nodes)
    (o : V) :
    (g.erase a).inDegree o + (g.out a).count o =
      g.inDegree o :=
  Finset.sum_erase_add g.nodes _ hNode

theorem inDegree_setOut_add
    (hNode : a ∈ g.nodes)
    (l : List V)
    (o : V) :
    (g.setOut a l).inDegree o + (g.out a).count o =
      g.inDegree o + l.count o := by
  have hOld := inDegree_erase_add hNode o
  have hNew :=
    inDegree_erase_add (g := g.setOut a l) (a := a) hNode o
  have hSame :
      ((g.setOut a l).erase a).inDegree o =
        (g.erase a).inDegree o := by
    apply Finset.sum_congr rfl
    intro b hb
    have hNe : b ≠ a := Finset.ne_of_mem_erase hb
    simp [setOut, erase, hNe]
  have hOut : (g.setOut a l).out a = l := by
    simp [setOut]
  rw [hSame, hOut] at hNew
  omega

theorem inDegree_insert
    (hNew : o ∉ g.nodes)
    (l : List V)
    (x : V) :
    (g.insert o l).inDegree x = g.inDegree x + l.count x := by
  have hSplit :
      (g.insert o l).inDegree x =
        ((g.insert o l).out o).count x +
          ∑ a ∈ g.nodes, ((g.insert o l).out a).count x :=
    Finset.sum_insert hNew
  have hSame :
      ∑ a ∈ g.nodes, ((g.insert o l).out a).count x =
        g.inDegree x := by
    apply Finset.sum_congr rfl
    intro b hb
    have hNe : b ≠ o := by
      intro hEq
      rw [hEq] at hb
      exact hNew hb
    simp [insert, hNe]
  have hOut : (g.insert o l).out o = l := by
    simp [insert]
  rw [hSplit, hSame, hOut]
  omega

/- An edge counts. -/
theorem inDegree_pos
    (hNode : a ∈ g.nodes)
    (hEdge : o ∈ g.out a) :
    0 < g.inDegree o := by
  have hAdd := inDegree_erase_add hNode o
  have hCount : 0 < (g.out a).count o :=
    List.count_pos_iff.mpr hEdge
  omega

/- What counts is an edge. -/
theorem exists_of_inDegree_pos
    (hPos : 0 < g.inDegree o) :
    ∃ a ∈ g.nodes, o ∈ g.out a := by
  have hSum : ∑ a ∈ g.nodes, (g.out a).count o ≠ 0 :=
    Nat.ne_of_gt hPos
  rcases Finset.exists_ne_zero_of_sum_ne_zero hSum with
    ⟨a, hNode, hCount⟩
  exact
    ⟨a, hNode, List.count_pos_iff.mp (Nat.pos_of_ne_zero hCount)⟩

/- Fewer nodes hold fewer references. -/
theorem inDegree_mono
    {g' : RefGraph V}
    (hNodes : g'.nodes ⊆ g.nodes)
    (hOut : g'.out = g.out)
    (o : V) :
    g'.inDegree o ≤ g.inDegree o := by
  unfold inDegree
  rw [hOut]
  exact Finset.sum_le_sum_of_subset hNodes

end RefGraph

end KDoth

------------------------------------------------------------
-- Graded Graphs
------------------------------------------------------------

namespace KDoth

namespace RefGraph

variable {V : Type} [DecidableEq V]
variable {g : RefGraph V} {o : V}

theorem Graded.erase
    (hGraded : g.Graded)
    (o : V) :
    (g.erase o).Graded := by
  rcases hGraded with ⟨rank, hDown⟩
  refine ⟨rank, ?_⟩
  intro a ha
  exact hDown a (Finset.mem_of_mem_erase ha)

/- A node that nothing refers to is put above the others. -/
theorem Graded.insert
    {l : List V}
    (hGraded : g.Graded)
    (hNew : o ∉ g.nodes)
    (hAlone : ∀ a ∈ g.nodes, o ∉ g.out a)
    (hSelf : o ∉ l) :
    (g.insert o l).Graded := by
  rcases hGraded with ⟨rank, hDown⟩
  let top := (l.map rank).sum + 1
  have hRank (x : V) (hx : x ≠ o) :
      Function.update rank o top x = rank x :=
    Function.update_of_ne hx top rank
  refine ⟨Function.update rank o top, ?_⟩
  intro a ha x hx
  by_cases hSame : a = o
  · subst hSame
    have hMem : x ∈ l := by
      simpa [RefGraph.insert] using hx
    have hNe : x ≠ a := by
      rintro rfl
      exact hSelf hMem
    have hLe : rank x ≤ (l.map rank).sum :=
      List.le_sum_of_mem (List.mem_map_of_mem hMem)
    rw [hRank x hNe, Function.update_self]
    omega
  · have hOld : a ∈ g.nodes :=
      Finset.mem_of_mem_insert_of_ne ha hSame
    have hEdge : x ∈ g.out a := by
      simpa [RefGraph.insert, hSame] using hx
    have hNe : x ≠ o := by
      rintro rfl
      exact hAlone a hOld hEdge
    rw [hRank x hNe, hRank a hSame]
    exact hDown a hOld x hEdge

end RefGraph

end KDoth

------------------------------------------------------------
-- Rooted Nodes
------------------------------------------------------------

namespace KDoth

namespace RefGraph

variable {V : Type} [DecidableEq V]
variable {g : RefGraph V} {count base : V → Nat}
variable {pending : List V} {a o : V}

/- A rooted node is held by the base or by a node. -/
theorem Rooted.references_pos
    (hRooted : g.Rooted base o) :
    0 < base o + g.inDegree o := by
  cases hRooted with
  | root hBase => omega
  | edge hFrom hNode hEdge =>
      have hDegree := inDegree_pos hNode hEdge
      omega

/- Rooted nodes are nodes. -/
theorem Balanced.mem_of_rooted
    (hBal : g.Balanced count base pending)
    (hRooted : g.Rooted base o) :
    o ∈ g.nodes := by
  by_contra hNot
  have hNone := hBal.closed o hNot
  have hPos := hRooted.references_pos
  omega

/- A node that is not rooted is on no path from the base. -/
theorem Rooted.erase
    (hRooted : g.Rooted base a)
    (hNot : ¬ g.Rooted base o) :
    (g.erase o).Rooted base a := by
  induction hRooted with
  | root hBase => exact .root hBase
  | edge hFrom hNode hEdge ih =>
      refine .edge ih ?_ hEdge
      apply Finset.mem_erase.mpr
      constructor
      · intro hEq
        rw [hEq] at hFrom
        exact hNot hFrom
      · exact hNode

/- The references of a rooted node are not needed for it. -/
theorem Rooted.setOut
    (hRooted : g.Rooted base a)
    (l : List V) :
    (g.setOut a l).Rooted base a := by
  have hEither :
      ∀ x, g.Rooted base x →
        (g.setOut a l).Rooted base x ∨
          (g.setOut a l).Rooted base a := by
    intro x hx
    induction hx with
    | root hBase => exact Or.inl (.root hBase)
    | edge hFrom hNode hEdge ih =>
        rename_i y z
        rcases ih with hLeft | hRight
        · by_cases hSame : y = a
          · rw [hSame] at hLeft
            exact Or.inr hLeft
          · refine Or.inl (.edge hLeft hNode ?_)
            simpa [RefGraph.setOut, hSame] using hEdge
        · exact Or.inr hRight
  rcases hEither a hRooted with h | h
  · exact h
  · exact h

end RefGraph

end KDoth

------------------------------------------------------------
-- Changes That Keep The Balance
------------------------------------------------------------

namespace KDoth

namespace RefGraph

namespace Balanced

variable {V : Type} [DecidableEq V]
variable {g : RefGraph V} {count base : V → Nat}
variable {pending : List V} {a o : V}

/- Only the counts of nodes matter. -/
theorem congr
    {count' : V → Nat}
    (hBal : g.Balanced count base pending)
    (hSame : ∀ o ∈ g.nodes, count' o = count o) :
    g.Balanced count' base pending := by
  constructor
  · intro o ho
    rw [hSame o ho]
    exact hBal.counts o ho
  · intro o ho
    rw [hSame o ho]
    exact hBal.positive o ho
  · exact hBal.closed

/- References move between the base and the pending ones. -/
theorem shift
    {base' : V → Nat}
    {pending' : List V}
    (hBal : g.Balanced count base pending)
    (hSame :
      ∀ o,
        base' o + pending'.count o = base o + pending.count o) :
    g.Balanced count base' pending' := by
  constructor
  · intro o ho
    rw [hSame o]
    exact hBal.counts o ho
  · exact hBal.positive
  · intro o ho
    rw [hSame o]
    exact hBal.closed o ho

/- A new reference to a node raises its count. -/
theorem retain
    (hBal : g.Balanced count base pending)
    (hNode : o ∈ g.nodes) :
    g.Balanced (Function.update count o (count o + 1)) base
      (o :: pending) := by
  constructor
  · intro x hx
    have hCount := hBal.counts x hx
    by_cases hSame : x = o
    · subst hSame
      rw [Function.update_self, List.count_cons_self]
      omega
    · rw [Function.update_of_ne hSame,
        List.count_cons_of_ne (Ne.symm hSame)]
      exact hCount
  · intro x hx
    by_cases hSame : x = o
    · subst hSame
      rw [Function.update_self]
      omega
    · rw [Function.update_of_ne hSame]
      exact hBal.positive x hx
  · intro x hx
    have hNe : x ≠ o := by
      intro hEq
      rw [hEq] at hx
      exact hx hNode
    rw [List.count_cons_of_ne (Ne.symm hNe)]
    exact hBal.closed x hx

/- A pending reference is to a node. -/
theorem mem_of_pending
    (hBal : g.Balanced count base (o :: pending)) :
    o ∈ g.nodes := by
  by_contra hNot
  have hNone := hBal.closed o hNot
  rw [List.count_cons_self] at hNone
  omega

/- A reference that is not the last is given up. -/
theorem drop
    (hBal : g.Balanced count base (o :: pending))
    (hMore : count o ≠ 1) :
    g.Balanced (Function.update count o (count o - 1)) base
      pending := by
  have hNode := hBal.mem_of_pending
  have hPositive := hBal.positive o hNode
  constructor
  · intro x hx
    have hCount := hBal.counts x hx
    by_cases hSame : x = o
    · subst hSame
      rw [List.count_cons_self] at hCount
      rw [Function.update_self]
      omega
    · rw [List.count_cons_of_ne (Ne.symm hSame)] at hCount
      rw [Function.update_of_ne hSame]
      exact hCount
  · intro x hx
    by_cases hSame : x = o
    · subst hSame
      rw [Function.update_self]
      omega
    · rw [Function.update_of_ne hSame]
      exact hBal.positive x hx
  · intro x hx
    have hNone := hBal.closed x hx
    have hNe : x ≠ o := by
      intro hEq
      rw [hEq] at hx
      exact hx hNode
    rw [List.count_cons_of_ne (Ne.symm hNe)] at hNone
    exact hNone

/- The node that loses its last reference is not rooted. -/
theorem not_rooted_of_last
    (hBal : g.Balanced count base (o :: pending))
    (hLast : count o = 1) :
    ¬ g.Rooted base o := by
  intro hRooted
  have hCount := hBal.counts o hBal.mem_of_pending
  rw [List.count_cons_self] at hCount
  have hPos := hRooted.references_pos
  omega

/- Nothing holds the node that loses its last reference. -/
theorem alone_of_last
    (hBal : g.Balanced count base (o :: pending))
    (hLast : count o = 1) :
    ∀ a ∈ g.nodes, o ∉ g.out a := by
  intro a ha hEdge
  have hCount := hBal.counts o hBal.mem_of_pending
  have hDegree := inDegree_pos ha hEdge
  rw [List.count_cons_self] at hCount
  omega

/-
  The node that loses its last reference leaves the graph,
  and what it held is pending.
-/
theorem die
    (hBal : g.Balanced count base (o :: pending))
    (hLast : count o = 1) :
    (g.erase o).Balanced count base (g.out o ++ pending) := by
  have hNode := hBal.mem_of_pending
  have hSelf := hBal.counts o hNode
  rw [List.count_cons_self] at hSelf
  constructor
  · intro x hx
    have hNe : x ≠ o := Finset.ne_of_mem_erase hx
    have hCount := hBal.counts x (Finset.mem_of_mem_erase hx)
    have hDegree := inDegree_erase_add hNode x
    rw [List.count_cons_of_ne (Ne.symm hNe)] at hCount
    rw [List.count_append]
    omega
  · intro x hx
    exact hBal.positive x (Finset.mem_of_mem_erase hx)
  · intro x hx
    have hDegree := inDegree_erase_add hNode x
    rw [List.count_append]
    by_cases hSame : x = o
    · subst hSame
      omega
    · have hNot : x ∉ g.nodes := by
        intro hMem
        exact hx (Finset.mem_erase.mpr ⟨hSame, hMem⟩)
      have hNone := hBal.closed x hNot
      rw [List.count_cons_of_ne (Ne.symm hSame)] at hNone
      omega

/- A node takes over pending references or gives them up. -/
theorem setOut
    {l pending' : List V}
    (hBal : g.Balanced count base pending)
    (hNode : a ∈ g.nodes)
    (hSame :
      ∀ o,
        l.count o + pending'.count o =
          (g.out a).count o + pending.count o) :
    (g.setOut a l).Balanced count base pending' := by
  constructor
  · intro x hx
    have hCount := hBal.counts x hx
    have hDegree := inDegree_setOut_add hNode l x
    have hMoved := hSame x
    omega
  · exact hBal.positive
  · intro x hx
    have hNone := hBal.closed x hx
    have hDegree := inDegree_setOut_add hNode l x
    have hMoved := hSame x
    omega

/-
  Without a base nothing is left where references lead down:
  nothing holds the highest node.
-/
theorem nodes_eq_empty
    (hBal : g.Balanced count base [])
    (hBase : ∀ o, base o = 0)
    (rank : V → Nat)
    (hDown : ∀ a ∈ g.nodes, ∀ o ∈ g.out a, rank o < rank a) :
    g.nodes = ∅ := by
  by_contra hSome
  rcases Finset.exists_max_image g.nodes rank
      (Finset.nonempty_iff_ne_empty.mpr hSome) with
    ⟨o, hNode, hHighest⟩
  have hCount := hBal.counts o hNode
  have hPositive := hBal.positive o hNode
  rw [hBase, List.count_nil] at hCount
  rcases exists_of_inDegree_pos (g := g) (o := o) (by omega) with
    ⟨a, ha, hEdge⟩
  have hLess := hDown a ha o hEdge
  have hLe := hHighest a ha
  omega

/- A new node has one reference and takes over others. -/
theorem insert
    {l : List V}
    (hBal : g.Balanced count base (l ++ pending))
    (hNew : o ∉ g.nodes) :
    (g.insert o l).Balanced (Function.update count o 1) base
      (o :: pending) := by
  have hNone := hBal.closed o hNew
  rw [List.count_append] at hNone
  constructor
  · intro x hx
    rw [inDegree_insert hNew]
    by_cases hSame : x = o
    · subst hSame
      rw [Function.update_self, List.count_cons_self]
      omega
    · have hOld : x ∈ g.nodes := by
        rcases Finset.mem_insert.mp hx with hEq | hMem
        · exact absurd hEq hSame
        · exact hMem
      have hCount := hBal.counts x hOld
      rw [List.count_append] at hCount
      rw [Function.update_of_ne hSame,
        List.count_cons_of_ne (Ne.symm hSame)]
      omega
  · intro x hx
    by_cases hSame : x = o
    · subst hSame
      rw [Function.update_self]
      omega
    · rw [Function.update_of_ne hSame]
      rcases Finset.mem_insert.mp hx with hEq | hMem
      · exact absurd hEq hSame
      · exact hBal.positive x hMem
  · intro x hx
    have hNe : x ≠ o := by
      intro hEq
      rw [hEq] at hx
      exact hx (Finset.mem_insert_self o g.nodes)
    have hOld : x ∉ g.nodes := by
      intro hMem
      exact hx (Finset.mem_insert_of_mem hMem)
    have hClosed := hBal.closed x hOld
    rw [List.count_append] at hClosed
    rw [inDegree_insert hNew,
      List.count_cons_of_ne (Ne.symm hNe)]
    omega

end Balanced

end RefGraph

end KDoth

------------------------------------------------------------
-- The Order Of A Cascade
------------------------------------------------------------

namespace KDoth

namespace RefGraph

variable {V : Type} [DecidableEq V]
variable {g g' g'' : RefGraph V} {o : V}

/-
  Nodes leave the graph one after the other, each when
  nothing in the graph holds it any more: a property of all
  nodes that left follows by induction along this order.
-/
def LeavesInOrder (g g' : RefGraph V) : Prop :=
  ∀ D : V → Prop,
    (∀ o ∈ g.nodes, o ∉ g'.nodes →
      (∀ a ∈ g.nodes, o ∈ g.out a → D a) → D o) →
        ∀ o ∈ g.nodes, o ∉ g'.nodes → D o

omit [DecidableEq V] in
theorem LeavesInOrder.refl (g : RefGraph V) :
    g.LeavesInOrder g := by
  intro D _ o hNode hNot
  exact absurd hNode hNot

omit [DecidableEq V] in
/- The holders in the later part are in the graph before it. -/
theorem LeavesInOrder.trans
    (hNodes : g'.nodes ⊆ g.nodes)
    (hLater : g''.nodes ⊆ g'.nodes)
    (hOut : g'.out = g.out)
    (hFirst : g.LeavesInOrder g')
    (hNext : g'.LeavesInOrder g'') :
    g.LeavesInOrder g'' := by
  classical
  intro D hStep
  have hEarly : ∀ o ∈ g.nodes, o ∉ g'.nodes → D o := by
    apply hFirst
    intro o hNode hNot
    exact hStep o hNode fun h => hNot (hLater h)
  have hLate : ∀ o ∈ g'.nodes, o ∉ g''.nodes → D o := by
    apply hNext
    intro o hMid hNot hHolders
    apply hStep o (hNodes hMid) hNot
    intro a ha hEdge
    by_cases hLeft : a ∈ g'.nodes
    · rw [← hOut] at hEdge
      exact hHolders a hLeft hEdge
    · exact hEarly a ha hLeft
  intro o hNode hNot
  by_cases hMid : o ∈ g'.nodes
  · exact hLate o hMid hNot
  · exact hEarly o hNode hMid

/- A node that nothing holds leaves first. -/
theorem LeavesInOrder.first
    (hNode : o ∈ g.nodes)
    (hAlone : ∀ a ∈ g.nodes, o ∉ g.out a)
    (hGone : o ∉ g'.nodes)
    (hRest : (g.erase o).LeavesInOrder g') :
    g.LeavesInOrder g' := by
  intro D hStep
  have hSelf : D o := by
    apply hStep o hNode hGone
    intro a ha hEdge
    exact absurd hEdge (hAlone a ha)
  have hOthers :
      ∀ x ∈ (g.erase o).nodes, x ∉ g'.nodes → D x := by
    apply hRest
    intro x hx hNot hHolders
    apply hStep x (Finset.mem_of_mem_erase hx) hNot
    intro a ha hEdge
    by_cases hSame : a = o
    · rw [hSame]
      exact hSelf
    · exact
        hHolders a (Finset.mem_erase.mpr ⟨hSame, ha⟩) hEdge
  intro x hx hNot
  by_cases hSame : x = o
  · rw [hSame]
    exact hSelf
  · exact hOthers x (Finset.mem_erase.mpr ⟨hSame, hx⟩) hNot

end RefGraph

end KDoth
