import KDoth.Foundations.RefGraph
import KDoth.Objects.Heap
import Mathlib.Data.Finset.Card

/-
  The cascade of a release.

  While objects are being deinitialized they are not part of
  the reference graph any more, and what they still have to
  release is pending. Some objects may be pinned: their body
  in the heap is about to change, and the graph already has
  the references that they will hold. Pinned objects are
  rooted, so no cascade deinitializes them.

  Key definitions include:
    * `Heap.count`
    * `Heap.Models`
    * `Heap.Shrunk`
    * `Heap.Cascade`
    * `Heap.Releases`

  Key theorems include:
    * `Heap.Cascade.drop`
    * `Heap.Cascade.die`
    * `Heap.Shrunk.free`
    * `Heap.Cascade.free`
    * `Heap.releases`
-/

------------------------------------------------------------
-- Heaps And Graphs
------------------------------------------------------------

namespace KDoth

namespace Heap

/- The reference count of a live object. -/
def count (h : Heap) (o : KObjectRef) : Nat :=
  match h.objects o with
  | none => 0
  | some block => block.refCount.toNat

/- What follows the control block of a live object. -/
def body? (h : Heap) (o : KObjectRef) : Option KObjectBody :=
  (h.objects o).map KControlBlock.body

/-
  The nodes of the graph are live, and unless they are pinned
  they hold what their deinitializers release.
-/
def Models
    (h : Heap)
    (g : RefGraph KObjectRef)
    (pinned : KObjectRef → Prop) : Prop :=
  ∀ o ∈ g.nodes,
    ∃ body,
      h.body? o = some body ∧
        (¬ pinned o → g.out o = body.references)

/-
  Some nodes of the graph were deinitialized, once each, and
  freed. Nothing else changed but counts of nodes. What held
  a freed node was freed before it.
-/
structure Shrunk
    (h : Heap)
    (g : RefGraph KObjectRef)
    (h' : Heap)
    (g' : RefGraph KObjectRef) : Prop where
  nodes : g'.nodes ⊆ g.nodes
  out : g'.out = g.out
  body : ∀ o ∈ g'.nodes, h'.body? o = h.body? o
  freed :
    ∀ o ∈ g.nodes, o ∉ g'.nodes → h'.objects o = none
  order : g.LeavesInOrder g'
  frame : ∀ o, o ∉ g.nodes → h'.objects o = h.objects o
  nextAddress : h'.nextAddress = h.nextAddress
  tPool : h'.tPool = h.tPool
  deInits :
    ∃ dead : List KObjectRef,
      h'.deInits = h.deInits ++ dead ∧ dead.Nodup ∧
        ∀ o, o ∈ dead ↔ o ∈ g.nodes ∧ o ∉ g'.nodes

theorem Shrunk.refl
    (h : Heap)
    (g : RefGraph KObjectRef) :
    Shrunk h g h g := by
  refine
    ⟨Finset.Subset.refl _, rfl, fun _ _ => rfl, ?_, .refl g,
      fun _ _ => rfl, rfl, rfl, [], by simp, by simp, by simp⟩
  intro o hNode hNot
  exact absurd hNode hNot

theorem Shrunk.trans
    {h h' h'' : Heap}
    {g g' g'' : RefGraph KObjectRef}
    (hFirst : Shrunk h g h' g')
    (hNext : Shrunk h' g' h'' g'') :
    Shrunk h g h'' g'' := by
  rcases hFirst.deInits with ⟨dead, hLog, hNodup, hDead⟩
  rcases hNext.deInits with ⟨more, hLog', hNodup', hMore⟩
  refine
    ⟨hNext.nodes.trans hFirst.nodes,
      hNext.out.trans hFirst.out, ?_, ?_,
      hFirst.order.trans hFirst.nodes hNext.nodes hFirst.out
        hNext.order, ?_,
      hNext.nextAddress.trans hFirst.nextAddress,
      hNext.tPool.trans hFirst.tPool,
      dead ++ more, ?_, ?_, ?_⟩
  · intro o ho
    exact
      (hNext.body o ho).trans (hFirst.body o (hNext.nodes ho))
  · intro o hNode hNot
    by_cases hMid : o ∈ g'.nodes
    · exact hNext.freed o hMid hNot
    · rw [hNext.frame o hMid]
      exact hFirst.freed o hNode hMid
  · intro o ho
    have hMid : o ∉ g'.nodes := fun h => ho (hFirst.nodes h)
    exact (hNext.frame o hMid).trans (hFirst.frame o ho)
  · rw [hLog', hLog, List.append_assoc]
  · apply List.nodup_append.mpr
    refine ⟨hNodup, hNodup', ?_⟩
    intro a ha b hb hEq
    subst hEq
    exact ((hDead a).mp ha).2 ((hMore a).mp hb).1
  · intro o
    rw [List.mem_append, hDead, hMore]
    constructor
    · intro hEither
      rcases hEither with hLeft | hRight
      · exact ⟨hLeft.1, fun h => hLeft.2 (hNext.nodes h)⟩
      · exact ⟨hFirst.nodes hRight.1, hRight.2⟩
    · intro hBoth
      by_cases hMid : o ∈ g'.nodes
      · exact Or.inr ⟨hMid, hBoth.2⟩
      · exact Or.inl ⟨hBoth.1, hMid⟩

theorem Shrunk.card_le
    {h h' : Heap}
    {g g' : RefGraph KObjectRef}
    (hShrunk : Shrunk h g h' g') :
    g'.nodes.card ≤ g.nodes.card :=
  Finset.card_le_card hShrunk.nodes

/- Reading a node succeeds. -/
theorem Models.read
    {h : Heap}
    {g : RefGraph KObjectRef}
    {pinned : KObjectRef → Prop}
    (hModels : h.Models g pinned)
    {o : KObjectRef}
    (hNode : o ∈ g.nodes) :
    ∃ block,
      h.objects o = some block ∧
        (¬ pinned o → g.out o = block.body.references) := by
  rcases hModels o hNode with ⟨body, hBody, hOut⟩
  rcases Option.map_eq_some_iff.mp hBody with
    ⟨block, hBlock, hEq⟩
  rw [← hEq] at hOut
  exact ⟨block, hBlock, hOut⟩

end Heap

end KDoth

------------------------------------------------------------
-- Heap Updates
------------------------------------------------------------

namespace KDoth

namespace Heap

variable {h : Heap} {o x : KObjectRef}

@[simp] theorem put_objects_self
    (h : Heap)
    (o : KObjectRef)
    (block : Option KControlBlock) :
    (h.put o block).objects o = block := by
  simp [put]

theorem put_objects_of_ne
    (block : Option KControlBlock)
    (hNe : x ≠ o) :
    (h.put o block).objects x = h.objects x := by
  simp [put, hNe]

theorem put_body?_of_ne
    (block : Option KControlBlock)
    (hNe : x ≠ o) :
    (h.put o block).body? x = h.body? x := by
  simp [body?, put_objects_of_ne block hNe]

/- Changing a count keeps every body. -/
theorem put_count_body?
    {block : KControlBlock}
    (hBlock : h.objects o = some block)
    (n : UInt32)
    (x : KObjectRef) :
    (h.put o (some { block with refCount := n })).body? x =
      h.body? x := by
  by_cases hSame : x = o
  · subst hSame
    simp [body?, hBlock]
  · exact put_body?_of_ne _ hSame

/- Changing a count changes the counts in one place. -/
theorem put_count_count
    (block : KControlBlock)
    (n : UInt32) :
    (h.put o (some { block with refCount := n })).count =
      Function.update h.count o n.toNat := by
  funext x
  by_cases hSame : x = o
  · subst hSame
    simp [count]
  · simp [count, put_objects_of_ne _ hSame, hSame]

end Heap

end KDoth

------------------------------------------------------------
-- The Cascade
------------------------------------------------------------

namespace KDoth

namespace Heap

open Command

variable {pinned : KObjectRef → Prop}
variable {base : KObjectRef → Nat}

/-
  The state before a cascade: what is pending may be
  released.
-/
structure Cascade
    (pinned : KObjectRef → Prop)
    (base : KObjectRef → Nat)
    (h : Heap)
    (g : RefGraph KObjectRef)
    (pending : List KObjectRef) : Prop where
  models : h.Models g pinned
  balanced : g.Balanced h.count base pending
  rooted : ∀ a, pinned a → g.Rooted base a

/- One more reference that is not the last is given up. -/
theorem Cascade.drop
    {h : Heap}
    {g : RefGraph KObjectRef}
    {o : KObjectRef}
    {rest : List KObjectRef}
    (hCascade : Cascade pinned base h g (o :: rest))
    {block : KControlBlock}
    (hBlock : h.objects o = some block)
    (hMore : block.refCount ≠ 1)
    {h' : Heap}
    (hPut :
      h' =
        h.put o
          (some
            { block with refCount := block.refCount - 1 })) :
    Shrunk h g h' g ∧ Cascade pinned base h' g rest := by
  have hNode := hCascade.balanced.mem_of_pending
  have hCount : h.count o = block.refCount.toNat := by
    simp [count, hBlock]
  have hPositive := hCascade.balanced.positive o hNode
  have hMany : h.count o ≠ 1 := by
    intro hOne
    apply hMore
    apply UInt32.toNat.inj
    rw [← hCount, hOne]
    rfl
  have hPred :
      (block.refCount - 1).toNat = h.count o - 1 := by
    rw [UInt32.toNat_sub_of_le, hCount]
    · rfl
    · apply UInt32.le_iff_toNat_le.mpr
      rw [← hCount]
      exact hPositive
  have hBodies : ∀ x, h'.body? x = h.body? x := by
    intro x
    rw [hPut]
    exact put_count_body? hBlock _ x
  constructor
  · refine
      ⟨Finset.Subset.refl _, rfl, fun x _ => hBodies x, ?_,
        .refl g, ?_, by rw [hPut]; rfl, by rw [hPut]; rfl, [],
        by rw [hPut]; simp [put], by simp, by simp⟩
    · intro x hx hNot
      exact absurd hx hNot
    · intro x hx
      have hNe : x ≠ o := by
        intro hEq
        rw [hEq] at hx
        exact hx hNode
      rw [hPut]
      exact put_objects_of_ne _ hNe
  · constructor
    · intro x hx
      rw [hBodies x]
      exact hCascade.models x hx
    · rw [hPut, put_count_count, hPred]
      exact hCascade.balanced.drop hMany
    · exact hCascade.rooted

/- The last reference is given up. -/
theorem Cascade.die
    {h : Heap}
    {g : RefGraph KObjectRef}
    {o : KObjectRef}
    {rest : List KObjectRef}
    (hCascade : Cascade pinned base h g (o :: rest))
    {block : KControlBlock}
    (hBlock : h.objects o = some block)
    (hLast : block.refCount = 1)
    {h' : Heap}
    (hPut :
      h' =
        (h.put o
          (some
            { block with
              refCount := block.refCount - 1 })).deinitialized
          o) :
    Cascade pinned base h' (g.erase o)
      (block.body.references ++ rest) := by
  have hNode := hCascade.balanced.mem_of_pending
  have hOne : h.count o = 1 := by
    simp [count, hBlock, hLast]
  have hNot := hCascade.balanced.not_rooted_of_last hOne
  have hOut : g.out o = block.body.references := by
    rcases hCascade.models.read hNode with
      ⟨other, hOther, hRefs⟩
    rw [hBlock] at hOther
    cases hOther
    apply hRefs
    intro hPinned
    exact hNot (hCascade.rooted o hPinned)
  have hSame :
      ∀ x, x ≠ o → h'.objects x = h.objects x := by
    intro x hNe
    rw [hPut]
    exact put_objects_of_ne _ hNe
  constructor
  · intro x hx
    have hNe : x ≠ o := Finset.ne_of_mem_erase hx
    rw [body?, hSame x hNe]
    exact hCascade.models x (Finset.mem_of_mem_erase hx)
  · rw [← hOut]
    apply (hCascade.balanced.die hOne).congr
    intro x hx
    have hNe : x ≠ o := Finset.ne_of_mem_erase hx
    simp only [count, hSame x hNe]
  · intro a ha
    exact (hCascade.rooted a ha).erase hNot

/- A node that is gone after its cascade. -/
theorem Shrunk.ne_of_mem
    {h' h'' : Heap}
    {g g' : RefGraph KObjectRef}
    {o x : KObjectRef}
    (hShrunk : Shrunk h' (g.erase o) h'' g')
    (hMem : x ∈ g'.nodes) :
    x ≠ o :=
  Finset.ne_of_mem_erase (hShrunk.nodes hMem)

/-
  A deinitialized object is freed after its cascade, before
  which nothing held it any more.
-/
theorem Shrunk.free
    {h h' h'' : Heap}
    {g g' : RefGraph KObjectRef}
    {o : KObjectRef}
    (hNode : o ∈ g.nodes)
    (hAlone : ∀ a ∈ g.nodes, o ∉ g.out a)
    {block : KControlBlock}
    (hStart : h' = (h.put o (some block)).deinitialized o)
    (hShrunk : Shrunk h' (g.erase o) h'' g') :
    Shrunk h g (h''.put o none) g' := by
  have hGone : o ∉ g'.nodes := by
    intro hMem
    exact hShrunk.ne_of_mem hMem rfl
  have hBefore :
      ∀ x, x ≠ o → h'.objects x = h.objects x := by
    intro x hNe
    rw [hStart]
    exact put_objects_of_ne _ hNe
  rcases hShrunk.deInits with ⟨dead, hLog, hNodup, hDead⟩
  refine
    ⟨?_, hShrunk.out, ?_, ?_,
      hShrunk.order.first hNode hAlone hGone, ?_, ?_, ?_,
      o :: dead, ?_, ?_, ?_⟩
  · intro x hx
    exact Finset.mem_of_mem_erase (hShrunk.nodes hx)
  · intro x hx
    have hNe := hShrunk.ne_of_mem hx
    rw [put_body?_of_ne _ hNe, hShrunk.body x hx, body?, body?,
      hBefore x hNe]
  · intro x hx hNot
    by_cases hSame : x = o
    · rw [hSame, put_objects_self]
    · rw [put_objects_of_ne _ hSame]
      exact
        hShrunk.freed x
          (Finset.mem_erase.mpr ⟨hSame, hx⟩) hNot
  · intro x hx
    have hNe : x ≠ o := by
      intro hEq
      rw [hEq] at hx
      exact hx hNode
    rw [put_objects_of_ne _ hNe, hShrunk.frame x, hBefore x hNe]
    intro hMem
    exact hx (Finset.mem_of_mem_erase hMem)
  · change h''.nextAddress = h.nextAddress
    rw [hShrunk.nextAddress, hStart]
    rfl
  · change h''.tPool = h.tPool
    rw [hShrunk.tPool, hStart]
    rfl
  · change h''.deInits = h.deInits ++ o :: dead
    rw [hLog, hStart]
    simp [deinitialized, put]
  · apply List.nodup_cons.mpr
    constructor
    · intro hMem
      exact
        Finset.ne_of_mem_erase ((hDead o).mp hMem).1 rfl
    · exact hNodup
  · intro x
    rw [List.mem_cons, hDead]
    constructor
    · intro hEither
      rcases hEither with hEq | hBoth
      · rw [hEq]
        exact ⟨hNode, hGone⟩
      · exact ⟨Finset.mem_of_mem_erase hBoth.1, hBoth.2⟩
    · intro hBoth
      by_cases hSame : x = o
      · exact Or.inl hSame
      · exact
          Or.inr
            ⟨Finset.mem_erase.mpr ⟨hSame, hBoth.1⟩,
              hBoth.2⟩

/- What is left of the cascade does not see the freed one. -/
theorem Cascade.free
    {h' h'' : Heap}
    {g g' : RefGraph KObjectRef}
    {o : KObjectRef}
    {rest : List KObjectRef}
    (hShrunk : Shrunk h' (g.erase o) h'' g')
    (hCascade : Cascade pinned base h'' g' rest) :
    Cascade pinned base (h''.put o none) g' rest := by
  constructor
  · intro x hx
    rw [put_body?_of_ne _ (hShrunk.ne_of_mem hx)]
    exact hCascade.models x hx
  · apply hCascade.balanced.congr
    intro x hx
    simp only [count, put_objects_of_ne _ (hShrunk.ne_of_mem hx)]
  · exact hCascade.rooted

/- What releasing one pending reference does. -/
def Releases (depth : Nat) : Prop :=
  ∀ pinned base h g o rest,
    Cascade pinned base h g (o :: rest) →
      g.nodes.card ≤ depth →
        wp (releaseObject depth o)
          (fun _ h' =>
            ∃ g',
              Shrunk h g h' g' ∧
                Cascade pinned base h' g' rest)
          (fun _ _ => False) h

/- The objects released one after the other. -/
theorem Releases.forM
    {depth : Nat}
    (hReleases : Releases depth)
    (l : List KObjectRef)
    {h : Heap}
    {g : RefGraph KObjectRef}
    {rest : List KObjectRef}
    (hCascade : Cascade pinned base h g (l ++ rest))
    (hCard : g.nodes.card ≤ depth) :
    wp (forM l (releaseObject depth))
      (fun _ h' =>
        ∃ g',
          Shrunk h g h' g' ∧ Cascade pinned base h' g' rest)
      (fun _ _ => False) h := by
  induction l generalizing h g with
  | nil => exact ⟨g, Shrunk.refl h g, hCascade⟩
  | cons o l ih =>
      rw [List.forM_cons, wp_bind]
      have hFirst :=
        hReleases pinned base h g o (l ++ rest) hCascade hCard
      apply wp_imp hFirst
      intro _ h' hAfter
      rcases hAfter with ⟨g', hShrunk, hNext⟩
      have hCard' := hShrunk.card_le.trans hCard
      apply wp_imp (ih hNext hCard')
      intro _ h'' hLast
      rcases hLast with ⟨g'', hShrunk', hDone⟩
      exact ⟨g'', hShrunk.trans hShrunk', hDone⟩

/- By induction on the depth, with the last step split off. -/
theorem releases (depth : Nat) : Releases depth := by
  induction depth with
  | zero =>
      intro pinned base h g o rest hCascade hCard
      have hNode := hCascade.balanced.mem_of_pending
      have hEmpty : g.nodes = ∅ :=
        Finset.card_eq_zero.mp (Nat.le_zero.mp hCard)
      rw [hEmpty] at hNode
      cases hNode
  | succ depth ih =>
      intro pinned base h g o rest hCascade hCard
      have hNode := hCascade.balanced.mem_of_pending
      rcases hCascade.models.read hNode with
        ⟨block, hBlock, _⟩
      simp only [releaseObject, read, wp_bind, wp_get, hBlock,
        wp_pure, wp_modify]
      by_cases hLast : block.refCount = 1
      · rw [if_pos hLast, wp_bind, wp_modify, wp_bind]
        have hAlone :=
          hCascade.balanced.alone_of_last
            (by simp [count, hBlock, hLast])
        have hDie := hCascade.die hBlock hLast rfl
        have hSmaller : (g.erase o).nodes.card ≤ depth := by
          have hCardErase := Finset.card_erase_of_mem hNode
          change (g.nodes.erase o).card ≤ depth
          omega
        apply wp_imp
          (ih.forM block.body.references hDie hSmaller)
        intro _ h' hAfter
        rcases hAfter with ⟨g', hShrunk, hDone⟩
        rw [wp_modify]
        exact
          ⟨g', hShrunk.free hNode hAlone rfl,
            hDone.free hShrunk⟩
      · rw [if_neg hLast]
        exact ⟨g, hCascade.drop hBlock hLast rfl⟩

end Heap

end KDoth
