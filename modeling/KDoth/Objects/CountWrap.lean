import KDoth.Objects.ReleaseSteps

/-
  What the 32-bit word of a control block tells about the
  number of references. The word is that number modulo 2^32,
  so that a release calls the deinitializer at one reference,
  and also at one more than a multiple of 2^32.

  Key definitions include:
    * `ReleaseState.references`
    * `ReleaseState.Allowed`
    * `ReleaseState.Timely`
    * `ReleaseState.TellsLast`
    * `ReleaseState.Tallied`

  Key theorems include:
    * `ReleaseState.Tallied.references_eq`
    * `ReleaseState.Tallied.step`
    * `ReleaseState.timely_iff`
-/

------------------------------------------------------------
-- References
------------------------------------------------------------

namespace KDoth

namespace ReleaseState

/- What the calls under way still have to release. -/
def pending (s : ReleaseState) : List KObjectRef :=
  s.frames.flatMap ReleaseFrame.left

/-
  A call under way releases what the object holds. Its items
  are counted there.
-/
def Opened (s : ReleaseState) (a : KObjectRef) : Prop :=
  a ∈ s.frames.map ReleaseFrame.owner

instance
    (s : ReleaseState)
    (a : KObjectRef) :
    Decidable (s.Opened a) := by
  unfold Opened
  infer_instance

/-
  The references to an object: those of the client, those in
  list nodes and fields, and those that a call under way has
  not yet given up.
-/
def references (s : ReleaseState) (o : KObjectRef) : Nat :=
  s.roots o + s.pending.count o +
    ∑ i ∈ Finset.range s.heap.nextAddress,
      if s.Opened ⟨i⟩ then 0
      else (s.heap.references ⟨i⟩).count o

/- The object that a step calls `KObjectRelease` on. -/
def released (s : ReleaseState) :
    ReleaseStep → Option KObjectRef
| .objectRelease o => some o
| .proceed => s.frames.head?.bind fun f => f.left.head?
| _ => none

/-
  The client gives up only references that it holds, and
  empties only lists that it can reach.
-/
def Allowed (s : ReleaseState) : ReleaseStep → Prop
| .call (.objectNew fields _) =>
    ∀ x, fields.count x ≤ s.held x
| .objectRelease o => 0 < s.held o
| .listRemoveAllObjects list => s.Reach list
| _ => True

/-
  If the step calls the deinitializer of an object, nothing
  holds a reference to that object.
-/
def Timely (s : ReleaseState) (l : ReleaseStep) : Prop :=
  ∀ s' o,
    s.next l = some s' →
      s'.heap.deInits = s.heap.deInits ++ [o] →
        s'.references o = 0

/-
  The object that the step releases does not have one
  reference more than a positive multiple of 2^32.
-/
def TellsLast (s : ReleaseState) (l : ReleaseStep) : Prop :=
  ∀ o ∈ s.released l,
    s.references o % 2 ^ 32 = 1 → s.references o = 1

end ReleaseState

end KDoth

------------------------------------------------------------
-- Tallies
------------------------------------------------------------

namespace KDoth

namespace ReleaseState

/-
  The words of the live objects are a tally of all references
  modulo 2^32. Objects that are being deinitialized have left
  the graph, and lists that are being emptied are rooted and
  hold nothing. The references of `extra` are about to be
  given up, apart from those in frames.
-/
structure Tallied
    (s : ReleaseState)
    (g : RefGraph KObjectRef)
    (tally : KObjectRef → Nat)
    (extra : List KObjectRef) : Prop where
  models :
    ∀ o ∈ g.nodes,
      ∃ block,
        s.heap.objects o = some block ∧
          block.refCount.toNat = tally o % 2 ^ 32 ∧
            (¬ s.Opened o → g.out o = block.body.references)
  freed :
    ∀ f ∈ s.frames, f.ending = .free → f.owner ∉ g.nodes
  clears :
    ∀ f ∈ s.frames, f.ending ≠ .free →
      g.Rooted s.roots f.owner ∧ g.out f.owner = []
  live :
    ∀ o, o ∉ g.nodes → s.heap.objects o = none ∨ s.Opened o
  bounded : ∀ o ∈ g.nodes, o.address < s.heap.nextAddress
  balanced : g.Balanced tally s.roots (extra ++ s.pending)
  noPool : s.heap.tPool = none

variable {s : ReleaseState} {g : RefGraph KObjectRef}
variable {tally : KObjectRef → Nat} {extra : List KObjectRef}
variable {o : KObjectRef}

theorem not_mem_frames
    (hIdle : s.frames = [])
    (f : ReleaseFrame) :
    f ∉ s.frames := by
  rw [hIdle]
  exact List.not_mem_nil

/- With no call under way nothing is left to release. -/
theorem pending_eq_nil
    (hIdle : s.frames = []) :
    s.pending = [] := by
  rw [pending, hIdle]
  rfl

/- A list that is being emptied is a node and holds nothing. -/
theorem Tallied.of_opened
    (hTallied : s.Tallied g tally extra)
    (hNode : o ∈ g.nodes)
    (hOpened : s.Opened o) :
    g.Rooted s.roots o ∧ g.out o = [] := by
  rcases List.mem_map.mp hOpened with ⟨f, hFrame, hOwner⟩
  rw [← hOwner] at hNode ⊢
  apply hTallied.clears f hFrame
  intro hFree
  exact hTallied.freed f hFrame hFree hNode

/- The references are those of the graph and of its base. -/
theorem Tallied.references_eq
    (hTallied : s.Tallied g tally extra)
    (o : KObjectRef) :
    s.references o =
      s.roots o + s.pending.count o + g.inDegree o := by
  have hNone :
      ∀ a, a ∉ g.nodes →
        (if s.Opened a then 0
          else (s.heap.references a).count o) = 0 := by
    intro a hNot
    by_cases hOpened : s.Opened a
    · rw [if_pos hOpened]
    · have hFreed := (hTallied.live a hNot).resolve_right hOpened
      rw [if_neg hOpened, Heap.references, hFreed]
      rfl
  unfold references
  rw [ObjectGraph.sum_addresses hTallied.bounded hNone]
  congr 1
  apply Finset.sum_congr rfl
  intro a ha
  by_cases hOpened : s.Opened a
  · rw [if_pos hOpened, (hTallied.of_opened ha hOpened).2]
    rfl
  · rcases hTallied.models a ha with ⟨block, hBlock, _, hOut⟩
    rw [if_neg hOpened, hOut hOpened, Heap.references, hBlock]

/- An object that is about to be given up is a node. -/
theorem Tallied.mem_of_extra
    (hTallied : s.Tallied g tally [o]) :
    o ∈ g.nodes :=
  hTallied.balanced.mem_of_pending

/-
  The client takes references over or gives them up while no
  call is under way.
-/
theorem Tallied.shift
    (held' : KObjectRef → Nat)
    (extra' : List KObjectRef)
    (hTallied : s.Tallied g tally extra)
    (hIdle : s.frames = [])
    (hSame :
      ∀ x,
        held' x + extra'.count x = s.held x + extra.count x) :
    Tallied { s with held := held' } g tally extra' := by
  refine
    ⟨hTallied.models, hTallied.freed,
      fun f hFrame => absurd hFrame (not_mem_frames hIdle f),
      hTallied.live, hTallied.bounded, ?_, hTallied.noPool⟩
  apply hTallied.balanced.shift
  intro x
  change
    Heap.rootsOf held' s.heap.tPool x +
        (extra' ++ s.pending).count x =
      Heap.rootsOf s.held s.heap.tPool x +
        (extra ++ s.pending).count x
  have hx := hSame x
  rw [pending_eq_nil hIdle, List.append_nil,
    List.append_nil, Heap.rootsOf, Heap.rootsOf]
  omega

/- The first item of the innermost call is given up. -/
theorem Tallied.take
    {graph : ObjectGraph}
    {owner : KObjectRef}
    {left : List KObjectRef}
    {ending : ReleaseEnd}
    {rest : List ReleaseFrame}
    (hTallied :
      Tallied
        { graph with
          frames :=
            { owner := owner
              left := o :: left
              ending := ending } :: rest }
        g tally []) :
    Tallied
      { graph with
        frames :=
          { owner := owner, left := left, ending := ending } ::
            rest }
      g tally [o] := by
  have hFrames :
      ∀ f ∈
        ({ owner := owner, left := left, ending := ending } ::
          rest : List ReleaseFrame),
        ∃ f' ∈
          ({ owner := owner
             left := o :: left
             ending := ending } :: rest : List ReleaseFrame),
          f'.owner = f.owner ∧ f'.ending = f.ending := by
    intro f hFrame
    rcases List.mem_cons.mp hFrame with hFirst | hRest
    · exact
        ⟨_, List.mem_cons_self, by rw [hFirst], by rw [hFirst]⟩
    · exact ⟨f, List.mem_cons_of_mem _ hRest, rfl, rfl⟩
  refine
    ⟨hTallied.models, ?_, ?_, hTallied.live, hTallied.bounded,
      hTallied.balanced, hTallied.noPool⟩
  · intro f hFrame hFree
    rcases hFrames f hFrame with ⟨f', hMem, hOwner, hEnding⟩
    rw [← hOwner]
    rw [← hEnding] at hFree
    exact hTallied.freed f' hMem hFree
  · intro f hFrame hClear
    rcases hFrames f hFrame with ⟨f', hMem, hOwner, hEnding⟩
    rw [← hOwner]
    rw [← hEnding] at hClear
    exact hTallied.clears f' hMem hClear

/- The word of a node is written. -/
theorem Tallied.recount
    {tally' : KObjectRef → Nat}
    {extra' : List KObjectRef}
    {block : KControlBlock}
    (hTallied : s.Tallied g tally extra)
    (hNode : o ∈ g.nodes)
    (hBlock : s.heap.objects o = some block)
    (n : UInt32)
    (hWord : n.toNat = tally' o % 2 ^ 32)
    (hOthers : ∀ x, x ≠ o → tally' x = tally x)
    (hBalanced :
      g.Balanced tally' s.roots (extra' ++ s.pending)) :
    (s.withHeap
        (s.heap.put o
          (some { block with refCount := n }))).Tallied
      g tally' extra' := by
  refine
    ⟨?_, hTallied.freed, hTallied.clears, ?_,
      hTallied.bounded, hBalanced, hTallied.noPool⟩
  · intro x hx
    rcases hTallied.models x hx with ⟨old, hOld, hCount, hOut⟩
    by_cases hSame : x = o
    · subst hSame
      rw [hBlock] at hOld
      cases hOld
      exact
        ⟨_, Heap.put_objects_self _ _ _, hWord, hOut⟩
    · refine ⟨old, ?_, ?_, hOut⟩
      · rw [← hOld]
        exact Heap.put_objects_of_ne _ hSame
      · rw [hOthers x hSame]
        exact hCount
  · intro x hx
    have hNe := (ne_of_mem_of_not_mem hNode hx).symm
    change (s.heap.put o _).objects x = none ∨ s.Opened x
    rw [Heap.put_objects_of_ne _ hNe]
    exact hTallied.live x hx

end ReleaseState

end KDoth

------------------------------------------------------------
-- One Release
------------------------------------------------------------

namespace KDoth

namespace ReleaseState

open Heap

variable {s : ReleaseState} {g : RefGraph KObjectRef}
variable {tally : KObjectRef → Nat} {o : KObjectRef}

/- The word of the object that is released. -/
theorem Tallied.block_of_extra
    (hTallied : s.Tallied g tally [o]) :
    ∃ block,
      s.heap.objects o = some block ∧
        (block.refCount = 1 ↔ tally o % 2 ^ 32 = 1) ∧
          block.refCount.toNat = tally o % 2 ^ 32 ∧
            (¬ s.Opened o → g.out o = block.body.references) := by
  rcases hTallied.models o hTallied.mem_of_extra with
    ⟨block, hBlock, hWord, hOut⟩
  refine ⟨block, hBlock, ?_, hWord, hOut⟩
  rw [← hWord]
  exact UInt32.toNat_inj (b := 1).symm

/- A word other than one counts down. -/
theorem Tallied.release_more
    (hTallied : s.Tallied g tally [o])
    (hMore : tally o % 2 ^ 32 ≠ 1) :
    ∃ s',
      s.release o = some s' ∧
        s'.heap.deInits = s.heap.deInits ∧
          s'.Tallied g
            (Function.update tally o (tally o - 1)) [] := by
  have hNode := hTallied.mem_of_extra
  rcases hTallied.block_of_extra with
    ⟨block, hBlock, hOne, hWord, _⟩
  have hNot : block.refCount ≠ 1 := fun h => hMore (hOne.mp h)
  have hPositive := hTallied.balanced.positive o hNode
  have hMany : tally o ≠ 1 := by
    intro hLast
    rw [hLast] at hMore
    exact hMore rfl
  refine ⟨_, release_of_ne hBlock hNot, rfl, ?_⟩
  apply hTallied.recount hNode hBlock
  · rw [Function.update_self, UInt32.toNat_sub, hWord]
    simp only [UInt32.reduceToNat]
    omega
  · intro x hNe
    exact Function.update_of_ne hNe _ _
  · exact hTallied.balanced.drop hMany

/- The object whose only reference is given up. -/
theorem Tallied.release_last
    (hTallied : s.Tallied g tally [o])
    (hLast : tally o = 1) :
    ∃ s',
      s.release o = some s' ∧
        s'.heap.deInits = s.heap.deInits ++ [o] ∧
          s'.Tallied (g.erase o) tally [] := by
  have hNode := hTallied.mem_of_extra
  rcases hTallied.block_of_extra with
    ⟨block, hBlock, hOne, _, hOut⟩
  have hNot := hTallied.balanced.not_rooted_of_last hLast
  have hClosed : ¬ s.Opened o := fun hOpened =>
    hNot (hTallied.of_opened hNode hOpened).1
  have hFirst : block.refCount = 1 := by
    apply hOne.mpr
    rw [hLast]
    rfl
  refine ⟨_, release_of_one hBlock hFirst, rfl, ?_⟩
  refine ⟨?_, ?_, ?_, ?_, ?_, ?_, hTallied.noPool⟩
  · intro x hx
    have hNe : x ≠ o := Finset.ne_of_mem_erase hx
    rcases hTallied.models x (Finset.mem_of_mem_erase hx) with
      ⟨old, hOld, hCount, hRefs⟩
    refine
      ⟨old, (deinitialized_taken_of_ne s.heap block hNe).trans hOld,
        hCount, ?_⟩
    intro hOther
    apply hRefs
    intro hOpened
    exact hOther (List.mem_cons_of_mem _ hOpened)
  · intro f hFrame hFree hMem
    rcases List.mem_cons.mp hFrame with hNew | hOld
    · rw [hNew] at hMem
      exact Finset.ne_of_mem_erase hMem rfl
    · exact
        hTallied.freed f hOld hFree (Finset.mem_of_mem_erase hMem)
  · intro f hFrame hClear
    rcases List.mem_cons.mp hFrame with hNew | hOld
    · rw [hNew] at hClear
      exact absurd rfl hClear
    · rcases hTallied.clears f hOld hClear with
        ⟨hRooted, hEmpty⟩
      exact ⟨hRooted.erase hNot, hEmpty⟩
  · intro x hx
    by_cases hSame : x = o
    · right
      rw [hSame]
      exact List.mem_cons_self
    · have hOther : x ∉ g.nodes := by
        intro hMem
        exact hx (Finset.mem_erase.mpr ⟨hSame, hMem⟩)
      rcases hTallied.live x hOther with hNone | hOpened
      · left
        exact
          (deinitialized_taken_of_ne s.heap block hSame).trans hNone
      · right
        exact List.mem_cons_of_mem _ hOpened
  · intro x hx
    exact hTallied.bounded x (Finset.mem_of_mem_erase hx)
  · have hDied := hTallied.balanced.die hLast
    rw [hOut hClosed] at hDied
    exact hDied

/- Whoever holds a reference to an object is counted. -/
theorem references_pos
    (hHolds :
      0 < s.roots o ∨ o ∈ s.pending ∨
        ∃ a, ¬ s.Opened a ∧ a.address < s.heap.nextAddress ∧
          o ∈ s.heap.references a) :
    0 < s.references o := by
  unfold references
  rcases hHolds with
    hRoot | hPending | ⟨⟨a⟩, hOther, hLt, hMem⟩
  · omega
  · have hCount := List.count_pos_iff.mpr hPending
    omega
  · have hCount := List.count_pos_iff.mpr hMem
    have hTerm :=
      Finset.single_le_sum
        (f := fun i =>
          if s.Opened ⟨i⟩ then 0
          else (s.heap.references ⟨i⟩).count o)
        (fun i _ => Nat.zero_le _)
        (Finset.mem_range.mpr hLt)
    simp only [if_neg hOther] at hTerm
    omega

/-
  The word of an object with one reference more than a
  positive multiple of 2^32 is one, and the deinitializer is
  called while all the others are there.
-/
theorem Tallied.release_early
    (hTallied : s.Tallied g tally [o])
    (hWrapped : tally o % 2 ^ 32 = 1)
    (hMore : tally o ≠ 1) :
    ∃ s',
      s.release o = some s' ∧
        s'.heap.deInits = s.heap.deInits ++ [o] ∧
          0 < s'.references o := by
  have hNode := hTallied.mem_of_extra
  rcases hTallied.block_of_extra with
    ⟨block, hBlock, hOne, _, hOut⟩
  have hCounts := hTallied.balanced.counts o hNode
  have hPositive := hTallied.balanced.positive o hNode
  rw [List.singleton_append, List.count_cons_self] at hCounts
  refine ⟨_, release_of_one hBlock (hOne.mpr hWrapped), rfl, ?_⟩
  apply references_pos
  by_cases hRoot : 0 < s.roots o
  · exact Or.inl hRoot
  right
  by_cases hPending : o ∈ s.pending
  · exact Or.inl (List.mem_append_right _ hPending)
  have hNone : s.pending.count o = 0 :=
    List.count_eq_zero.mpr hPending
  have hDegree : 0 < g.inDegree o := by omega
  rcases RefGraph.exists_of_inDegree_pos hDegree with
    ⟨a, ha, hEdge⟩
  have hClosed : ¬ s.Opened a := by
    intro hOpened
    rw [(hTallied.of_opened ha hOpened).2] at hEdge
    cases hEdge
  by_cases hSelf : a = o
  · left
    rw [hSelf] at hClosed hEdge
    rw [hOut hClosed] at hEdge
    exact List.mem_append_left _ hEdge
  · right
    rcases hTallied.models a ha with ⟨old, hOld, _, hRefs⟩
    refine ⟨a, ?_, hTallied.bounded a ha, ?_⟩
    · intro hOpened
      rcases List.mem_cons.mp hOpened with hSame | hOther
      · exact hSelf hSame
      · exact hClosed hOther
    · have hSame := deinitialized_taken_of_ne s.heap block hSelf
      rw [hRefs hClosed] at hEdge
      change o ∈ Heap.references _ a
      rw [Heap.references, withFrame, hSame, hOld]
      exact hEdge

end ReleaseState

end KDoth

------------------------------------------------------------
-- Calls That Release Nothing
------------------------------------------------------------

namespace KDoth

namespace ReleaseState

open Heap Command

variable {s : ReleaseState} {g : RefGraph KObjectRef}
variable {tally : KObjectRef → Nat} {extra : List KObjectRef}
variable {o a : KObjectRef}

/- With no call under way nothing is opened. -/
theorem not_opened
    (hIdle : s.frames = [])
    (a : KObjectRef) :
    ¬ s.Opened a := by
  intro hOpened
  rw [Opened, hIdle] at hOpened
  cases hOpened

/- What is live is a node. -/
theorem Tallied.mem_of_live
    {block : KControlBlock}
    (hTallied : s.Tallied g tally extra)
    (hIdle : s.frames = [])
    (hBlock : s.heap.objects o = some block) :
    o ∈ g.nodes := by
  by_contra hNot
  rcases hTallied.live o hNot with hNone | hOpened
  · rw [hBlock] at hNone
    cases hNone
  · exact not_opened hIdle o hOpened

/- A new object takes over what it refers to. -/
theorem Tallied.created
    {body : KObjectBody}
    (hTallied : s.Tallied g tally body.references)
    (hIdle : s.frames = []) :
    (s.withHeap (s.heap.created body)).Tallied
      (g.insert ⟨s.heap.nextAddress⟩ body.references)
      (Function.update tally ⟨s.heap.nextAddress⟩ 1)
      [⟨s.heap.nextAddress⟩] := by
  have hFresh :
      (⟨s.heap.nextAddress⟩ : KObjectRef) ∉ g.nodes := by
    intro hMem
    exact Nat.lt_irrefl _ (hTallied.bounded _ hMem)
  refine
    ⟨?_, fun f hFrame => absurd hFrame (not_mem_frames hIdle f),
      fun f hFrame => absurd hFrame (not_mem_frames hIdle f),
      ?_, ?_, ?_, hTallied.noPool⟩
  · intro x hx
    by_cases hSame : x = ⟨s.heap.nextAddress⟩
    · subst hSame
      refine
        ⟨_, Accounts.created_objects_self s.heap body, ?_, ?_⟩
      · rw [Function.update_self]
        rfl
      · intro _
        simp [RefGraph.insert]
    · have hMem : x ∈ g.nodes :=
        (Finset.mem_insert.mp hx).resolve_left hSame
      rcases hTallied.models x hMem with
        ⟨old, hOld, hCount, hOut⟩
      refine ⟨old, ?_, ?_, ?_⟩
      · rw [← hOld]
        exact Accounts.created_objects_of_ne body hSame
      · rw [Function.update_of_ne hSame]
        exact hCount
      · intro hOther
        rw [← hOut hOther]
        simp [RefGraph.insert, hSame]
  · intro x hx
    have hNe : x ≠ ⟨s.heap.nextAddress⟩ := by
      intro hSame
      exact hx (Finset.mem_insert.mpr (Or.inl hSame))
    have hOther : x ∉ g.nodes := fun hMem =>
      hx (Finset.mem_insert_of_mem hMem)
    change (s.heap.created body).objects x = none ∨ s.Opened x
    rw [Accounts.created_objects_of_ne body hNe]
    exact hTallied.live x hOther
  · intro x hx
    change x.address < s.heap.nextAddress + 1
    rcases Finset.mem_insert.mp hx with hEq | hMem
    · rw [hEq]
      exact Nat.lt_succ_self _
    · exact Nat.lt_succ_of_lt (hTallied.bounded x hMem)
  · exact hTallied.balanced.insert hFresh

/- A retained object has one reference more. -/
theorem Tallied.retained
    {block : KControlBlock}
    (hTallied : s.Tallied g tally [])
    (hIdle : s.frames = [])
    (hBlock : s.heap.objects o = some block) :
    (s.withHeap
        (s.heap.put o
          (some
            { block with
              refCount := block.refCount + 1 }))).Tallied
      g (Function.update tally o (tally o + 1)) [o] := by
  have hNode := hTallied.mem_of_live hIdle hBlock
  rcases hTallied.models o hNode with ⟨old, hOld, hWord, _⟩
  rw [hBlock] at hOld
  cases hOld
  apply hTallied.recount hNode hBlock
  · rw [Function.update_self, UInt32.toNat_add, hWord]
    simp only [UInt32.reduceToNat]
    omega
  · intro x hNe
    exact Function.update_of_ne hNe _ _
  · exact hTallied.balanced.retain hNode

/- A list takes over references or gives them up. -/
theorem Tallied.rewritten
    (extra' : List KObjectRef)
    {block : KControlBlock}
    (hTallied : s.Tallied g tally extra)
    (hIdle : s.frames = [])
    (hBlock : s.heap.objects a = some block)
    (body : KObjectBody)
    (hSame :
      ∀ x,
        body.references.count x + extra'.count x =
          block.body.references.count x + extra.count x) :
    (s.withHeap
        (s.heap.put a
          (some { block with body := body }))).Tallied
      (g.setOut a body.references) tally extra' := by
  have hNode := hTallied.mem_of_live hIdle hBlock
  rcases hTallied.models a hNode with ⟨old, hOld, hWord, hOut⟩
  rw [hBlock] at hOld
  cases hOld
  refine
    ⟨?_, fun f hFrame => absurd hFrame (not_mem_frames hIdle f),
      fun f hFrame => absurd hFrame (not_mem_frames hIdle f),
      ?_, hTallied.bounded, ?_, hTallied.noPool⟩
  · intro x hx
    by_cases hSelf : x = a
    · subst hSelf
      refine ⟨_, put_objects_self _ _ _, hWord, ?_⟩
      intro _
      simp [RefGraph.setOut]
    · rcases hTallied.models x hx with
        ⟨other, hOther, hCount, hRefs⟩
      refine ⟨other, ?_, hCount, ?_⟩
      · rw [← hOther]
        exact put_objects_of_ne _ hSelf
      · intro hClosed
        rw [← hRefs hClosed]
        simp [RefGraph.setOut, hSelf]
  · intro x hx
    have hNe := (ne_of_mem_of_not_mem hNode hx).symm
    change (s.heap.put a _).objects x = none ∨ s.Opened x
    rw [put_objects_of_ne _ hNe]
    exact hTallied.live x hx
  · apply hTallied.balanced.setOut hNode
    intro x
    rw [hOut (not_opened hIdle a), List.count_append,
      List.count_append]
    have hx := hSame x
    change
      body.references.count x +
          (extra'.count x + s.pending.count x) = _
    omega

/- The tallies are right, with nothing about to be given up. -/
def Sound (s : ReleaseState) : Prop :=
  ∃ g tally, s.Tallied g tally []

/- What a call that releases nothing keeps. -/
def SoundAfter
    (s : ReleaseState)
    (held : KObjectRef → Nat)
    (h : Heap) : Prop :=
  h.deInits = s.heap.deInits ∧
    Sound { s with heap := h, held := held }

/- A read that returns is of a live object. -/
theorem wp_read_of
    {h : Heap}
    {Q : KControlBlock → Heap → Prop}
    (hRead :
      ∀ block, h.objects a = some block → Q block h) :
    wp (Heap.read a) Q (fun _ _ => True) h := by
  simp only [Heap.read, wp_bind, wp_get]
  cases hBlock : h.objects a with
  | none => trivial
  | some block => exact hRead block hBlock

theorem wp_listItems_of
    {h : Heap}
    {Q : List KObjectRef → Heap → Prop}
    (hItems :
      ∀ items, h.body? a = some (.list items) → Q items h) :
    wp (listItems a) Q (fun _ _ => True) h := by
  rw [listItems, wp_bind]
  apply wp_read_of
  intro block hBlock
  cases hBody : block.body with
  | list items =>
      apply hItems items
      rw [body?, hBlock, ← hBody]
      rfl
  | object fields => trivial
  | array items => trivial

theorem wp_setBody_of
    {h : Heap}
    {body : KObjectBody}
    {Q : Unit → Heap → Prop}
    (hSet :
      ∀ block,
        h.objects a = some block →
          Q ⟨⟩
            (h.put a (some { block with body := body }))) :
    wp (setBody a body) Q (fun _ _ => True) h := by
  rw [setBody, wp_bind]
  apply wp_read_of
  exact hSet

/- The references that a client gets from a call. -/
theorem Tallied.to_client
    {pending : List KObjectRef}
    (hTallied : s.Tallied g tally pending)
    (hIdle : s.frames = []) :
    Sound
      { s with held := fun x => s.held x + pending.count x } := by
  refine ⟨g, tally, hTallied.shift _ [] hIdle ?_⟩
  intro x
  rw [List.count_nil, Nat.add_zero]

/- A new object is the client's, unless it is refused. -/
theorem Tallied.wp_objectNew
    (body : KObjectBody)
    (hTallied : s.Tallied g tally body.references)
    (hIdle : s.frames = [])
    (granted : Bool) :
    wp (Heap.objectNew body granted)
      (fun r h =>
        (r = none ∧ h = s.heap) ∨
          ∃ o, r = some o ∧
            s.SoundAfter (fun x => s.held x + [o].count x) h)
      (fun _ _ => True) s.heap := by
  cases granted with
  | false => exact Or.inl ⟨rfl, rfl⟩
  | true =>
      right
      exact
        ⟨_, rfl, rfl, (hTallied.created hIdle).to_client hIdle⟩

/- What a new object takes over the client has to hold. -/
theorem Sound.wp_objectNew
    {fields : List KObjectRef}
    (hSound : s.Sound)
    (hIdle : s.frames = [])
    (hHeld : ∀ x, fields.count x ≤ s.held x)
    (granted : Bool) :
    wp ((ObjectCall.objectNew fields granted).run s.held)
      s.SoundAfter (fun _ _ => True) s.heap := by
  rcases hSound with ⟨g, tally, hTallied⟩
  have hGiven :=
    hTallied.shift (fun x => s.held x - fields.count x) fields
      hIdle
      (by
        intro x
        have hx := hHeld x
        rw [List.count_nil]
        omega)
  rw [ObjectCall.run, wp_bind]
  apply wp_imp
    (Tallied.wp_objectNew (.object fields) hGiven hIdle
      granted)
  intro r h hAfter
  rcases hAfter with ⟨hNone, hSame⟩ | ⟨o, hSome, hNew⟩
  · rw [hNone, hSame]
    exact ⟨rfl, g, tally, hTallied⟩
  · rw [hSome]
    exact hNew

theorem Sound.wp_listNew
    (hSound : s.Sound)
    (hIdle : s.frames = [])
    (granted : Bool) :
    wp ((ObjectCall.listNew granted).run s.held)
      s.SoundAfter (fun _ _ => True) s.heap := by
  rcases hSound with ⟨g, tally, hTallied⟩
  rw [ObjectCall.run, wp_bind]
  apply wp_imp
    (Tallied.wp_objectNew (.list []) hTallied hIdle granted)
  intro r h hAfter
  rcases hAfter with ⟨hNone, hSame⟩ | ⟨o, hSome, hNew⟩
  · rw [hNone, hSame]
    exact ⟨rfl, g, tally, hTallied⟩
  · rw [hSome]
    exact hNew

theorem Sound.wp_objectRetain
    (hSound : s.Sound)
    (hIdle : s.frames = [])
    (object : Option KObjectRef) :
    wp ((ObjectCall.objectRetain object).run s.held)
      s.SoundAfter (fun _ _ => True) s.heap := by
  rcases hSound with ⟨g, tally, hTallied⟩
  cases object with
  | none => exact ⟨rfl, g, tally, hTallied⟩
  | some o =>
      simp only [ObjectCall.run, Heap.objectRetain, wp_bind]
      apply wp_read_of
      intro block hBlock
      exact
        ⟨rfl, (hTallied.retained hIdle hBlock).to_client hIdle⟩

/- The item is retained and goes to the end of the list. -/
theorem Sound.wp_listAddObject
    (hSound : s.Sound)
    (hIdle : s.frames = [])
    (list object : Option KObjectRef)
    (granted : Bool) :
    wp ((ObjectCall.listAddObject list object granted).run s.held)
      s.SoundAfter (fun _ _ => True) s.heap := by
  rcases hSound with ⟨g, tally, hTallied⟩
  have hSame : s.SoundAfter s.held s.heap :=
    ⟨rfl, g, tally, hTallied⟩
  cases list with
  | none => exact hSame
  | some a =>
      cases object with
      | none => exact hSame
      | some o =>
          simp only [ObjectCall.run, Heap.listAddObject, wp_bind]
          apply wp_listItems_of
          intro items hItems
          cases granted with
          | false => exact hSame
          | true =>
              simp only [if_true, wp_bind, wp_pure,
                Heap.objectRetain]
              apply wp_read_of
              intro block hBlock
              apply wp_setBody_of
              intro list hList
              have hRetained := hTallied.retained hIdle hBlock
              have hBody : list.body = .list items := by
                have hKept :=
                  put_count_body? hBlock (block.refCount + 1) a
                rw [hItems, body?, hList] at hKept
                exact Option.some.inj hKept
              refine
                ⟨rfl, _, _,
                  hRetained.rewritten [] hIdle hList
                    (.list (items ++ [o])) ?_⟩
              intro x
              rw [hBody]
              change
                (items ++ [o]).count x + 0 =
                  items.count x + [o].count x
              rw [List.count_append, Nat.add_zero]

/- The item goes from the list to the client. -/
theorem Sound.wp_listRemoveObjectAtIndex
    (hSound : s.Sound)
    (hIdle : s.frames = [])
    (list : Option KObjectRef)
    (index : Nat) :
    wp ((ObjectCall.listRemoveObjectAtIndex list index).run
        s.held)
      s.SoundAfter (fun _ _ => True) s.heap := by
  rcases hSound with ⟨g, tally, hTallied⟩
  have hSame : s.SoundAfter s.held s.heap :=
    ⟨rfl, g, tally, hTallied⟩
  cases list with
  | none => exact hSame
  | some a =>
      simp only [ObjectCall.run, Heap.listRemoveObjectAtIndex,
        wp_bind]
      apply wp_listItems_of
      intro items hItems
      cases hItem : items[index]? with
      | none => exact hSame
      | some item =>
          rw [wp_bind]
          apply wp_setBody_of
          intro block hBlock
          have hBody : block.body = .list items := by
            rw [body?, hBlock] at hItems
            exact Option.some.inj hItems
          have hRewritten :=
            hTallied.rewritten [item] hIdle hBlock
              (.list (items.eraseIdx index))
              (by
                intro x
                rw [hBody, List.count_nil]
                exact count_eraseIdx_add hItem x)
          exact ⟨rfl, hRewritten.to_client hIdle⟩

/- By cases on the call. -/
theorem Sound.wp_call
    {c : ObjectCall}
    (hSound : s.Sound)
    (hIdle : s.frames = [])
    (hAllowed : s.Allowed (.call c))
    (hCall : c.releasesNothing = true) :
    wp (c.run s.held) s.SoundAfter (fun _ _ => True)
      s.heap := by
  cases c with
  | objectNew fields granted =>
      exact hSound.wp_objectNew hIdle hAllowed granted
  | listNew granted => exact hSound.wp_listNew hIdle granted
  | objectRetain object =>
      exact hSound.wp_objectRetain hIdle object
  | listAddObject list object granted =>
      exact hSound.wp_listAddObject hIdle list object granted
  | listRemoveObjectAtIndex list index =>
      exact hSound.wp_listRemoveObjectAtIndex hIdle list index
  | _ => cases hCall

theorem Sound.call
    {c : ObjectCall}
    {s' : ReleaseState}
    (hSound : s.Sound)
    (hIdle : s.frames = [])
    (hAllowed : s.Allowed (.call c))
    (hCall : c.releasesNothing = true)
    (hStep : s.call c = some s') :
    s'.heap.deInits = s.heap.deInits ∧ s'.Sound := by
  have hWp := hSound.wp_call hIdle hAllowed hCall
  unfold ReleaseState.call at hStep
  unfold wp at hWp
  cases hRun : c.run s.held s.heap with
  | error e h =>
      rw [hRun] at hStep
      cases hStep
  | ok held h =>
      rw [hRun] at hStep hWp
      cases hStep
      exact hWp

end ReleaseState

end KDoth

------------------------------------------------------------
-- Calls That Release
------------------------------------------------------------

namespace KDoth

namespace ReleaseState

open Heap Command

variable {s s' : ReleaseState} {g : RefGraph KObjectRef}
variable {tally : KObjectRef → Nat} {o a : KObjectRef}
variable {l : ReleaseStep}

/- A node has as many references as the tally says. -/
theorem Tallied.references_of_mem
    (hTallied : s.Tallied g tally [])
    (hNode : o ∈ g.nodes) :
    s.references o = tally o := by
  rw [hTallied.references_eq, hTallied.balanced.counts o hNode]
  rfl

/- Nothing refers to what is not a node. -/
theorem Tallied.references_of_not_mem
    (hTallied : s.Tallied g tally [])
    (hNot : o ∉ g.nodes) :
    s.references o = 0 := by
  rw [hTallied.references_eq]
  exact hTallied.balanced.closed o hNot

/- What is deinitialized by a step has no reference left. -/
def TimelyAt (s s' : ReleaseState) : Prop :=
  ∀ o,
    s'.heap.deInits = s.heap.deInits ++ [o] →
      s'.references o = 0

theorem timely_iff_timelyAt
    (hStep : s.next l = some s') :
    s.Timely l ↔ s.TimelyAt s' := by
  constructor
  · intro hTimely o
    exact hTimely s' o hStep
  · intro hTimely s'' o hOther
    rw [hStep] at hOther
    cases hOther
    exact hTimely o

theorem timelyAt_of_eq
    (hSame : s'.heap.deInits = s.heap.deInits) :
    s.TimelyAt s' := by
  intro o hLog
  rw [hSame] at hLog
  exact absurd hLog (by simp)

/-
  A release is timely exactly if the word of the object does
  not read one too early, and then the tallies stay right.
-/
theorem Tallied.release_iff
    (hTallied : s.Tallied g tally [o])
    (hStep : s.release o = some s') :
    (s.TimelyAt s' ↔ (tally o % 2 ^ 32 = 1 → tally o = 1)) ∧
      ((tally o % 2 ^ 32 = 1 → tally o = 1) → s'.Sound) := by
  by_cases hWord : tally o % 2 ^ 32 = 1
  · by_cases hLast : tally o = 1
    · rcases hTallied.release_last hLast with
        ⟨next, hNext, hLog, hAfter⟩
      rw [hStep] at hNext
      cases hNext
      refine ⟨⟨fun _ _ => hLast, ?_⟩, fun _ => ⟨_, _, hAfter⟩⟩
      intro _ x hOther
      rw [hLog] at hOther
      have hSame : o = x := by simpa using hOther
      rw [← hSame]
      apply hAfter.references_of_not_mem
      exact Finset.notMem_erase o g.nodes
    · rcases hTallied.release_early hWord hLast with
        ⟨next, hNext, hLog, hLeft⟩
      rw [hStep] at hNext
      cases hNext
      constructor
      · constructor
        · intro hTimely
          have hNone := hTimely o hLog
          omega
        · intro hTells
          exact absurd (hTells hWord) hLast
      · intro hTells
        exact absurd (hTells hWord) hLast
  · rcases hTallied.release_more hWord with
      ⟨next, hNext, hLog, hAfter⟩
    rw [hStep] at hNext
    cases hNext
    constructor
    · exact
        ⟨fun _ h => absurd h hWord, fun _ => timelyAt_of_eq hLog⟩
    · intro _
      exact ⟨_, _, hAfter⟩

/- What the client can reach is rooted. -/
theorem Tallied.rooted
    (hTallied : s.Tallied g tally [])
    (hIdle : s.frames = [])
    (hReach : s.Reach o) :
    g.Rooted s.roots o := by
  induction hReach with
  | root hRoot => exact .root hRoot
  | edge hFrom hEdge ih =>
      have hNode := hTallied.balanced.mem_of_rooted ih
      rcases hTallied.models _ hNode with
        ⟨block, hBlock, _, hOut⟩
      refine .edge ih hNode ?_
      rw [hOut (not_opened hIdle _)]
      rw [Heap.references, hBlock] at hEdge
      exact hEdge

/- The items of a list move to the frame of its removal. -/
theorem Tallied.opened
    {list : KObjectRef}
    {items : List KObjectRef}
    {removed : Nat}
    (hTallied : s.Tallied g tally [])
    (hIdle : s.frames = [])
    (hReach : s.Reach list)
    (hBody : s.heap.body? list = some (.list items)) :
    Tallied
      { s with
        frames :=
          [{ owner := list
             left := items
             ending := .clear removed }] }
      (g.setOut list []) tally [] := by
  have hRooted := hTallied.rooted hIdle hReach
  have hNode := hTallied.balanced.mem_of_rooted hRooted
  have hOut : g.out list = items := by
    rcases hTallied.models list hNode with
      ⟨block, hBlock, _, hRefs⟩
    rw [hRefs (not_opened hIdle list)]
    rw [body?, hBlock] at hBody
    rw [Option.some.inj hBody]
    rfl
  refine
    ⟨?_, ?_, ?_, ?_, hTallied.bounded, ?_, hTallied.noPool⟩
  · intro x hx
    rcases hTallied.models x hx with
      ⟨block, hBlock, hWord, hRefs⟩
    refine ⟨block, hBlock, hWord, ?_⟩
    intro hClosed
    have hNe : x ≠ list := by
      intro hSame
      exact hClosed (List.mem_singleton.mpr hSame)
    rw [← hRefs (not_opened hIdle x)]
    simp [RefGraph.setOut, hNe]
  · intro f hFrame hFree
    rw [List.mem_singleton.mp hFrame] at hFree
    cases hFree
  · intro f hFrame _
    rw [List.mem_singleton.mp hFrame]
    exact ⟨hRooted.setOut [], by simp [RefGraph.setOut]⟩
  · intro x hx
    left
    exact
      (hTallied.live x hx).resolve_right (not_opened hIdle x)
  · apply hTallied.balanced.setOut hNode
    intro x
    rw [pending_eq_nil hIdle, hOut]
    simp [pending]

/-
  A call that ends has released its items. Its object is then
  as the graph says, or is free.
-/
theorem Tallied.ended
    {graph : ObjectGraph}
    {ending : ReleaseEnd}
    {rest : List ReleaseFrame}
    (hTallied :
      Tallied
        { graph with
          frames :=
            { owner := a, left := [], ending := ending } ::
              rest }
        g tally [])
    (block : Option KControlBlock)
    (hNode :
      a ∈ g.nodes →
        ∃ b,
          block = some b ∧
            b.refCount.toNat = tally a % 2 ^ 32 ∧
              g.out a = b.body.references)
    (hGone : a ∉ g.nodes → block = none) :
    Tallied
      { graph with
        heap := graph.heap.put a block
        frames := rest }
      g tally [] := by
  refine
    ⟨?_, ?_, ?_, ?_, hTallied.bounded, hTallied.balanced,
      hTallied.noPool⟩
  · intro x hx
    by_cases hSame : x = a
    · subst hSame
      rcases hNode hx with ⟨b, hBlock, hWord, hOut⟩
      refine ⟨b, ?_, hWord, fun _ => hOut⟩
      rw [← hBlock]
      exact put_objects_self _ _ _
    · rcases hTallied.models x hx with
        ⟨old, hOld, hWord, hRefs⟩
      refine ⟨old, ?_, hWord, ?_⟩
      · rw [← hOld]
        exact put_objects_of_ne _ hSame
      · intro hClosed
        apply hRefs
        intro hOpened
        rcases List.mem_cons.mp hOpened with hSelf | hOther
        · exact hSame hSelf
        · exact hClosed hOther
  · intro f hFrame hFree
    exact
      hTallied.freed f (List.mem_cons_of_mem _ hFrame) hFree
  · intro f hFrame hClear
    exact
      hTallied.clears f (List.mem_cons_of_mem _ hFrame) hClear
  · intro x hx
    by_cases hSame : x = a
    · subst hSame
      left
      rw [← hGone hx]
      exact put_objects_self _ _ _
    · rcases hTallied.live x hx with hNone | hOpened
      · left
        rw [← hNone]
        exact put_objects_of_ne _ hSame
      · right
        exact (List.mem_cons.mp hOpened).resolve_left hSame

/- A deinitialized object is freed after its items. -/
theorem Tallied.end_free
    {graph : ObjectGraph}
    {rest : List ReleaseFrame}
    (hTallied :
      Tallied
        { graph with
          frames :=
            { owner := a, left := [], ending := .free } ::
              rest }
        g tally []) :
    Tallied
      { graph with
        heap := graph.heap.put a none
        frames := rest }
      g tally [] := by
  have hGone : a ∉ g.nodes :=
    hTallied.freed _ List.mem_cons_self rfl
  apply hTallied.ended none
  · intro hNode
    exact absurd hNode hGone
  · intro _
    rfl

/- A list whose items are released holds nothing. -/
theorem Tallied.end_clear
    {graph : ObjectGraph}
    {rest : List ReleaseFrame}
    {removed : Nat}
    {block : KControlBlock}
    (hTallied :
      Tallied
        { graph with
          frames :=
            { owner := a
              left := []
              ending := .clear removed } :: rest }
        g tally [])
    (hBlock : graph.heap.objects a = some block) :
    Tallied
      { graph with
        heap :=
          graph.heap.put a (some { block with body := .list [] })
        frames := rest }
      g tally [] := by
  rcases hTallied.clears _ List.mem_cons_self nofun with
    ⟨hRooted, hEmpty⟩
  have hNode := hTallied.balanced.mem_of_rooted hRooted
  rcases hTallied.models a hNode with ⟨old, hOld, hWord, _⟩
  have hEq : block = old :=
    Option.some.inj (hBlock.symm.trans hOld)
  apply
    hTallied.ended (some { block with body := .list [] })
  · intro _
    refine ⟨_, rfl, ?_, hEmpty⟩
    rw [hEq]
    exact hWord
  · intro hGone
    exact absurd hNode hGone

/- What ends a call keeps the tallies. -/
theorem Sound.wp_endRelease
    {graph : ObjectGraph}
    {ending : ReleaseEnd}
    {rest : List ReleaseFrame}
    (hSound :
      Sound
        { graph with
          frames :=
            { owner := a, left := [], ending := ending } ::
              rest }) :
    wp
      (endRelease
        { owner := a, left := [], ending := ending })
      (fun _ h =>
        h.deInits = graph.heap.deInits ∧
          Sound { graph with heap := h, frames := rest })
      (fun _ _ => True) graph.heap := by
  rcases hSound with ⟨g, tally, hTallied⟩
  cases ending with
  | free => exact ⟨rfl, g, tally, hTallied.end_free⟩
  | clear removed =>
      simp only [endRelease, wp_bind]
      apply wp_listItems_of
      intro left hLeft
      rw [wp_ite]
      split
      · apply wp_setBody_of
        intro block hBlock
        exact ⟨rfl, g, tally, hTallied.end_clear hBlock⟩
      · trivial

/- Emptying a list up to its first item. -/
theorem Sound.removeAll
    {list : KObjectRef}
    (hSound : s.Sound)
    (hIdle : s.frames = [])
    (hReach : s.Reach list)
    (hStep : s.removeAll list = some s') :
    s'.heap.deInits = s.heap.deInits ∧ s'.Sound := by
  rcases hSound with ⟨g, tally, hTallied⟩
  have hItems :
      wp (listItems list)
        (fun items h =>
          h = s.heap ∧ s.heap.body? list = some (.list items))
        (fun _ _ => True) s.heap :=
    wp_listItems_of fun _ hBody => ⟨rfl, hBody⟩
  unfold ReleaseState.removeAll at hStep
  unfold wp at hItems
  cases hRun : listItems list s.heap with
  | error e h =>
      rw [hRun] at hStep
      cases hStep
  | ok items h =>
      rw [hRun] at hStep hItems
      rcases hItems with ⟨hSame, hBody⟩
      rw [hSame, hIdle] at hStep
      cases hStep
      exact
        ⟨rfl, _, tally, hTallied.opened hIdle hReach hBody⟩

/-
  A step is timely exactly if it tells the last reference
  from the others, and then the tallies stay right.
-/
def Faithful
    (s : ReleaseState)
    (l : ReleaseStep)
    (s' : ReleaseState) : Prop :=
  (s.TimelyAt s' ↔ s.TellsLast l) ∧
    (s.TellsLast l → s'.Sound)

/- A step that releases nothing. -/
theorem faithful_of_quiet
    (hNone : s.released l = none)
    (hAfter :
      s'.heap.deInits = s.heap.deInits ∧ s'.Sound) :
    s.Faithful l s' := by
  have hTells : s.TellsLast l := by
    intro o ho
    rw [hNone] at ho
    cases ho
  exact
    ⟨⟨fun _ => hTells, fun _ => timelyAt_of_eq hAfter.1⟩,
      fun _ => hAfter.2⟩

/- A step that releases a node. -/
theorem Tallied.faithful
    {t : ReleaseState}
    (hTallied : s.Tallied g tally [])
    (hReleased : s.released l = some o)
    (hExtra : t.Tallied g tally [o])
    (hLog : t.heap.deInits = s.heap.deInits)
    (hStep : t.release o = some s') :
    s.Faithful l s' := by
  have hReferences :=
    hTallied.references_of_mem hExtra.mem_of_extra
  have hTells :
      s.TellsLast l ↔ (tally o % 2 ^ 32 = 1 → tally o = 1) := by
    unfold TellsLast
    rw [hReleased]
    constructor
    · intro hTells
      rw [← hReferences]
      exact hTells o rfl
    · intro hTells x hx
      cases hx
      rw [hReferences]
      exact hTells
  have hTimely : s.TimelyAt s' ↔ t.TimelyAt s' := by
    unfold TimelyAt
    rw [hLog]
  rw [Faithful, hTells, hTimely]
  exact hExtra.release_iff hStep

/- The innermost call goes on. -/
theorem Sound.proceed
    (hSound : s.Sound)
    (hStep : s.proceed = some s') :
    s.Faithful .proceed s' := by
  rcases s with ⟨graph, frames⟩
  cases frames with
  | nil => cases hStep
  | cons f rest =>
      rcases f with ⟨owner, left, ending⟩
      cases left with
      | nil =>
          have hEnd := hSound.wp_endRelease
          apply faithful_of_quiet rfl
          unfold ReleaseState.proceed at hStep
          unfold wp at hEnd
          simp only at hStep
          cases hRun :
              endRelease
                { owner := owner, left := [], ending := ending }
                graph.heap with
          | error e h =>
              rw [hRun] at hStep
              cases hStep
          | ok u h =>
              rw [hRun] at hStep hEnd
              cases hStep
              exact hEnd
      | cons o left =>
          rcases hSound with ⟨g, tally, hTallied⟩
          exact
            hTallied.faithful rfl hTallied.take rfl hStep

/- By cases on the step. -/
theorem Sound.step
    (hSound : s.Sound)
    (hAllowed : s.Allowed l)
    (hStep : s.next l = some s') :
    s.Faithful l s' := by
  cases l with
  | call c =>
      simp only [next] at hStep
      split at hStep
      · rename_i hBoth
        exact
          faithful_of_quiet rfl
            (hSound.call hBoth.2 hAllowed hBoth.1 hStep)
      · cases hStep
  | objectRelease o =>
      simp only [next] at hStep
      split at hStep
      · rename_i hIdle
        rcases hSound with ⟨g, tally, hTallied⟩
        have hGiven :=
          hTallied.shift (fun x => s.held x - [o].count x) [o]
            hIdle
            (by
              intro x
              have hLe :=
                ObjectGraph.count_toList_le
                  (s := s.toObjectGraph) (o := some o)
                  (by
                    intro y hy
                    cases hy
                    exact hAllowed)
                  x
              rw [Option.toList_some] at hLe
              rw [List.count_nil]
              omega)
        exact hTallied.faithful rfl hGiven rfl hStep
      · cases hStep
  | listRemoveAllObjects list =>
      simp only [next] at hStep
      split at hStep
      · rename_i hIdle
        exact
          faithful_of_quiet rfl
            (hSound.removeAll hIdle hAllowed hStep)
      · cases hStep
  | proceed => exact hSound.proceed hStep

end ReleaseState

end KDoth

------------------------------------------------------------
-- Whole Runs
------------------------------------------------------------

namespace KDoth

namespace ReleaseState

open Heap Command

/- An empty heap has nothing to tally. -/
theorem sound_of_init
    {s : ReleaseState}
    (hInit : releaseSteps.Init s) :
    s.Sound := by
  rcases hInit with ⟨hHeap, hHeld, hIdle⟩
  have hPool : s.heap.tPool = none := by
    rw [hHeap]
    rfl
  refine
    ⟨{ nodes := ∅, out := fun _ => [] }, fun _ => 0,
      ?_, ?_, ?_, ?_, ?_, ⟨?_, ?_, ?_⟩, hPool⟩
  · nofun
  · rw [hIdle]
    nofun
  · rw [hIdle]
    nofun
  · intro o _
    left
    rw [hHeap]
    rfl
  · nofun
  · nofun
  · nofun
  · intro o _
    have hRoots : s.roots o = 0 := by
      rw [ObjectGraph.roots, rootsOf, hHeld, hPool]
      rfl
    rw [hRoots, pending, hIdle]
    rfl

/-
  In every run from an empty heap, no deinitializer is called
  while a reference to its object is left exactly if no
  object is released that has one reference more than a
  positive multiple of 2^32.
-/
theorem timely_iff
    (start s : ReleaseState)
    (ls : List ReleaseStep)
    (hInit : releaseSteps.Init start)
    (hAllowed : releaseSteps.ExecMeets Allowed start ls)
    (hExec : releaseSteps.exec start ls = some s) :
    releaseSteps.ExecMeets Timely start ls ↔
      releaseSteps.ExecMeets TellsLast start ls := by
  apply
    TransitionSystem.execMeets_iff Sound _ _
      (sound_of_init hInit) hAllowed hExec
  · intro s l s' hSound hAllowed hStep
    rw [timely_iff_timelyAt hStep]
    exact (hSound.step hAllowed hStep).1
  · intro s l s' hSound hAllowed hTells hStep
    exact (hSound.step hAllowed hStep).2 hTells

/- No call was made on an empty heap. -/
def untouched : ReleaseState where
  heap := Heap.initial
  held := fun _ => 0
  frames := []

instance
    (s : ReleaseState)
    (l : ReleaseStep) :
    Decidable (s.TellsLast l) := by
  unfold TellsLast
  infer_instance

/- `KListAddObject` of the object to the list. -/
def addition : ReleaseStep :=
  .call (.listAddObject (some ⟨1⟩) (some ⟨0⟩) true)

/-
  A list has an object three times. The client gives up the
  object and empties the list, whose last release calls the
  deinitializer.
-/
def emptying : List ReleaseStep :=
  [.call (.objectNew [] true), .call (.listNew true), addition,
    addition, addition, .objectRelease ⟨0⟩,
    .listRemoveAllObjects ⟨1⟩, .proceed, .proceed, .proceed,
    .proceed, .proceed]

theorem timely_of_emptying :
    (∃ s,
      releaseSteps.exec untouched emptying = some s ∧
        s.heap.deInits = [⟨0⟩]) ∧
      releaseSteps.ExecMeets Timely untouched emptying := by
  have hExec :
      releaseSteps.exec untouched emptying = some _ := rfl
  refine ⟨⟨_, hExec, rfl⟩, ?_⟩
  refine
    (timely_iff _ _ _ ⟨rfl, fun _ => rfl, rfl⟩ ?_ hExec).mpr
      (by decide)
  -- The first seven steps are those of the client.
  refine ⟨fun _ => Nat.zero_le _, fun _ h₁ => ?_⟩
  cases h₁
  refine ⟨trivial, fun _ h₂ => ⟨trivial, fun _ h₃ => ?_⟩⟩
  cases h₂
  cases h₃
  refine ⟨trivial, fun _ h₄ => ⟨trivial, fun _ h₅ => ?_⟩⟩
  cases h₄
  cases h₅
  refine ⟨Nat.zero_lt_one, fun _ h₆ => ?_⟩
  cases h₆
  refine ⟨.root Nat.zero_lt_one, fun _ _ => ?_⟩
  exact
    ⟨trivial, fun _ _ => ⟨trivial, fun _ _ =>
      ⟨trivial, fun _ _ => ⟨trivial, fun _ _ =>
        ⟨trivial, fun _ _ => trivial⟩⟩⟩⟩⟩

/-
  The client holds an object, and a list has the object in
  `n` nodes.
-/
structure Filled (n : Nat) (s : ReleaseState) : Prop where
  object :
    ∃ block,
      s.heap.objects ⟨0⟩ = some block ∧
        block.refCount.toNat = (n + 1) % 2 ^ 32
  list :
    ∃ block,
      s.heap.objects ⟨1⟩ = some block ∧
        block.body = .list (List.replicate n ⟨0⟩)
  held : 0 < s.held ⟨0⟩
  frames : s.frames = []
  nextAddress : 1 < s.heap.nextAddress

/- The heap with one more node. -/
def added
    (h : Heap)
    (object list : KControlBlock)
    (n : Nat) : Heap :=
  (h.put ⟨0⟩
    (some { object with refCount := object.refCount + 1 })).put
      ⟨1⟩
      (some
        { list with body := .list (List.replicate n ⟨0⟩ ++ [⟨0⟩]) })

theorem next_addition
    {n : Nat}
    {s : ReleaseState}
    {object list : KControlBlock}
    (hObject : s.heap.objects ⟨0⟩ = some object)
    (hList : s.heap.objects ⟨1⟩ = some list)
    (hItems : list.body = .list (List.replicate n ⟨0⟩))
    (hIdle : s.frames = []) :
    s.next addition =
      some (s.withHeap (added s.heap object list n)) := by
  have hBody :
      s.heap.body? ⟨1⟩ = some (.list (List.replicate n ⟨0⟩)) := by
    rw [body?, hList]
    exact congrArg some hItems
  have hKept :
      (s.heap.put ⟨0⟩
          (some
            { object with
              refCount := object.refCount + 1 })).objects ⟨1⟩ =
        some list := by
    rw [← hList]
    exact put_objects_of_ne _ (by decide)
  have hRun :
      wp
        ((ObjectCall.listAddObject (some ⟨1⟩) (some ⟨0⟩)
          true).run s.held)
        (fun held h =>
          held = s.held ∧ h = added s.heap object list n)
        (fun _ _ => False) s.heap := by
    simp only [ObjectCall.run, Heap.listAddObject, wp_bind,
      wp_listItems hBody, if_true, Heap.objectRetain, Heap.read,
      wp_get, hObject, wp_pure, wp_modify, setBody, hKept]
    exact ⟨trivial, rfl⟩
  rcases returns_iff_wp.mpr hRun with
    ⟨held, h, hOk, hHeld, hHeap⟩
  rw [hHeld, hHeap] at hOk
  simp only [next, addition]
  rw [if_pos ⟨rfl, hIdle⟩, ReleaseState.call, hOk]
  rfl

/- One more node takes the count modulo 2^32. -/
theorem Filled.add
    {n : Nat}
    {s : ReleaseState}
    (hFilled : s.Filled n) :
    ∃ s', s.next addition = some s' ∧ s'.Filled (n + 1) := by
  rcases hFilled with
    ⟨⟨object, hObject, hCount⟩, ⟨list, hList, hItems⟩, hHeld,
      hIdle, hNext⟩
  refine
    ⟨_, next_addition hObject hList hItems hIdle, ?_, ?_, hHeld,
      hIdle, hNext⟩
  · refine ⟨{ object with refCount := object.refCount + 1 }, ?_, ?_⟩
    · exact
        (put_objects_of_ne _ (by decide)).trans
          (put_objects_self _ _ _)
    · rw [UInt32.toNat_add, hCount]
      simp only [UInt32.reduceToNat]
      omega
  · refine ⟨_, put_objects_self _ _ _, ?_⟩
    rw [List.replicate_succ']

/- By induction on the number of nodes that are added. -/
theorem Filled.adds
    {k : Nat}
    {s : ReleaseState}
    (hFilled : s.Filled k)
    (n : Nat) :
    ∃ s',
      releaseSteps.exec s (List.replicate n addition) =
          some s' ∧
        s'.Filled (k + n) := by
  induction n generalizing s k with
  | zero => exact ⟨s, rfl, hFilled⟩
  | succ n ih =>
      rcases hFilled.add with ⟨next, hNext, hMore⟩
      rcases ih hMore with ⟨s', hExec, hAll⟩
      refine ⟨s', ?_, ?_⟩
      · rw [List.replicate_succ, TransitionSystem.exec]
        have hStep : releaseSteps.step s addition = some next :=
          hNext
        rw [hStep]
        exact hExec
      · rw [Nat.add_assoc, Nat.add_comm 1 n] at hAll
        exact hAll

/- A number of nodes that is a multiple of 2^32. -/
theorem Filled.early
    {n : Nat}
    {s : ReleaseState}
    (hFilled : s.Filled n)
    (hPos : 0 < n)
    (hWraps : n % 2 ^ 32 = 0) :
    (∃ s', s.next (.objectRelease ⟨0⟩) = some s') ∧
      ¬ s.Timely (.objectRelease ⟨0⟩) := by
  rcases hFilled with
    ⟨⟨object, hObject, hCount⟩, ⟨list, hList, hItems⟩, hHeld,
      hIdle, hNext⟩
  have hOther : (⟨1⟩ : KObjectRef) ≠ ⟨0⟩ := by decide
  have hOne : object.refCount = 1 := by
    apply UInt32.toNat.inj
    rw [hCount]
    simp only [UInt32.reduceToNat]
    omega
  have hStep :
      s.next (.objectRelease ⟨0⟩) =
        some
          (withFrame
            { s with
              held := fun x => s.held x - [⟨0⟩].count x }
            ((s.heap.taken ⟨0⟩ object).deinitialized ⟨0⟩) ⟨0⟩
            object.body.references) := by
    simp only [next]
    rw [if_pos hIdle]
    exact release_of_one hObject hOne
  refine ⟨⟨_, hStep⟩, ?_⟩
  intro hTimely
  have hNone := hTimely _ ⟨0⟩ hStep rfl
  refine absurd hNone (Nat.ne_of_gt (references_pos ?_))
  right
  right
  refine ⟨⟨1⟩, ?_, hNext, ?_⟩
  · intro hOpened
    rw [Opened, withFrame, hIdle] at hOpened
    exact hOther (List.mem_singleton.mp hOpened)
  · have hSame := deinitialized_taken_of_ne s.heap object hOther
    rw [withFrame, Heap.references, hSame, hList]
    change ⟨0⟩ ∈ list.body.references
    rw [hItems]
    exact List.mem_replicate.mpr ⟨Nat.ne_of_gt hPos, rfl⟩

/- An object that is added to a list so many times. -/
def additions (n : Nat) : List ReleaseStep :=
  [.call (.objectNew [] true), .call (.listNew true)] ++
    (List.replicate n addition ++ [.objectRelease ⟨0⟩])

/- The object and the list are made. -/
theorem filled_of_untouched :
    ∃ s,
      releaseSteps.exec untouched
          [.call (.objectNew [] true), .call (.listNew true)] =
        some s ∧ s.Filled 0 := by
  refine ⟨_, rfl, ⟨_, rfl, rfl⟩, ⟨_, rfl, rfl⟩, ?_, rfl, ?_⟩
  · decide
  · decide

/- The steps are those of a client that keeps to the rules. -/
theorem allowed_additions
    {s s' : ReleaseState}
    (n : Nat)
    (hExec :
      releaseSteps.exec s (List.replicate n addition) = some s') :
    releaseSteps.ExecMeets Allowed s
      (List.replicate n addition) := by
  induction n generalizing s with
  | zero => trivial
  | succ n ih =>
      rw [List.replicate_succ] at hExec ⊢
      rcases TransitionSystem.exec_cons hExec with
        ⟨next, hNext, hRest⟩
      rw [TransitionSystem.execMeets_cons hNext]
      exact ⟨trivial, ih hRest⟩

/-
  With the object in as many nodes, the release of the
  client's own reference deinitializes it.
-/
theorem early_of_additions
    {n : Nat}
    (hPos : 0 < n)
    (hWraps : n % 2 ^ 32 = 0) :
    (∃ s, releaseSteps.exec untouched (additions n) = some s) ∧
      releaseSteps.ExecMeets Allowed untouched (additions n) ∧
      ¬ releaseSteps.ExecMeets Timely untouched
          (additions n) := by
  rcases filled_of_untouched with ⟨made, hMade, hEmpty⟩
  rcases hEmpty.adds n with ⟨filled, hAdds, hFilled⟩
  rw [Nat.zero_add] at hFilled
  rcases hFilled.early hPos hWraps with
    ⟨⟨last, hLast⟩, hEarly⟩
  have hStep :
      releaseSteps.step filled (.objectRelease ⟨0⟩) =
        some last := hLast
  unfold additions
  refine ⟨⟨last, ?_⟩, ?_, ?_⟩
  · rw [TransitionSystem.exec_append hMade,
      TransitionSystem.exec_append hAdds,
      TransitionSystem.exec, hStep]
    rfl
  · rw [TransitionSystem.execMeets_append hMade,
      TransitionSystem.execMeets_append hAdds]
    refine ⟨?_, allowed_additions n hAdds, ?_⟩
    · exact
        ⟨fun _ => Nat.le_refl 0, fun _ _ =>
          ⟨trivial, fun _ _ => trivial⟩⟩
    · exact ⟨hFilled.held, fun _ _ => trivial⟩
  · rw [TransitionSystem.execMeets_append hMade,
      TransitionSystem.execMeets_append hAdds]
    intro hTimely
    exact hEarly hTimely.2.2.1

/-
  An object that a list has in 2^32 nodes is deinitialized
  when the client gives up its own reference.
-/
theorem timely_fails :
    ∃ s,
      releaseSteps.Init untouched ∧
        releaseSteps.exec untouched (additions (2 ^ 32)) =
          some s ∧
        releaseSteps.ExecMeets Allowed untouched
          (additions (2 ^ 32)) ∧
        ¬ releaseSteps.ExecMeets Timely untouched
            (additions (2 ^ 32)) := by
  rcases early_of_additions (n := 2 ^ 32) (by decide)
      (by decide) with
    ⟨⟨s, hExec⟩, hAllowed, hEarly⟩
  exact
    ⟨s, ⟨rfl, fun _ => rfl, rfl⟩, hExec, hAllowed, hEarly⟩

end ReleaseState

end KDoth
