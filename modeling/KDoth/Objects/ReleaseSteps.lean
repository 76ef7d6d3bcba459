import KDoth.Objects.ReferenceLaw

/-
  Objects and lists with every `KObjectRelease` as a step of
  its own. What a deinitializer or a removal still has to
  release is kept in a frame of the call that releases it, so
  that the references to an object can be counted between two
  releases.

  A call on NULL does nothing and is left out.

  Key definitions include:
    * `ReleaseFrame`
    * `ReleaseState`
    * `Heap.beginRelease`
    * `Heap.endRelease`
    * `ReleaseStep`
    * `ReleaseState.next`
    * `releaseSteps`

  Key theorems include:
    * `ReleaseState.performs_releaseObject`
    * `ReleaseState.leads_of_objectGraph`
-/

------------------------------------------------------------
-- Frames
------------------------------------------------------------

namespace KDoth

/- What a call does after the last item is released. -/
inductive ReleaseEnd where
  /- `free` of the object that was deinitialized. -/
  | free
  /- The end of `KListRemoveAllObjects`, with `removed`. -/
  | clear (removed : Nat)
deriving DecidableEq, Repr

/- A call under way, with what it still has to release. -/
structure ReleaseFrame where
  owner : KObjectRef
  left : List KObjectRef
  ending : ReleaseEnd
deriving DecidableEq, Repr

/- The object graph with the calls under way, last one first. -/
structure ReleaseState extends ObjectGraph where
  frames : List ReleaseFrame

namespace Heap

/-
  `KObjectRelease` up to the call of the deinitializer, with
  what that has to release if it is called.
-/
def beginRelease (o : KObjectRef) :
    HeapCall (Option (List KObjectRef)) := do
  let block ← read o
  modify fun h =>
    h.put o (some { block with refCount := block.refCount - 1 })
  if block.refCount = 1 then
    modify fun h => h.deinitialized o
    pure (some block.body.references)
  else
    pure none

/- What is left to do when all items are released. -/
def endRelease (f : ReleaseFrame) : HeapCall Unit :=
  match f.ending with
  | .free => modify fun h => h.put f.owner none
  | .clear removed => do
      let left ← listItems f.owner
      if removed = left.length then
        setBody f.owner (.list [])
      else
        throw .assertFailed

end Heap

end KDoth

------------------------------------------------------------
-- Steps
------------------------------------------------------------

namespace KDoth

namespace ObjectCall

/- Calls on objects and lists that release nothing. -/
def releasesNothing : ObjectCall → Bool
| .objectNew _ _ => true
| .listNew _ => true
| .objectRetain _ => true
| .listAddObject _ _ _ => true
| .listRemoveObjectAtIndex _ _ => true
| _ => false

/- Calls on objects and lists. -/
def onLists : ObjectCall → Bool
| .objectRelease _ => true
| .listRemoveAllObjects _ => true
| c => c.releasesNothing

end ObjectCall

inductive ReleaseStep where
  | call (c : ObjectCall)
  | objectRelease (object : KObjectRef)
  | listRemoveAllObjects (list : KObjectRef)
  /- The innermost call goes on. -/
  | proceed

namespace ReleaseState

/- `KObjectRelease` of one object. -/
def release
    (s : ReleaseState)
    (o : KObjectRef) :
    Option ReleaseState :=
  match Heap.beginRelease o s.heap with
  | .error _ _ => none
  | .ok none heap => some { s with heap := heap }
  | .ok (some left) heap =>
      some
        { s with
          heap := heap
          frames :=
            { owner := o, left := left, ending := .free } ::
              s.frames }

/- A call that releases nothing is one step. -/
def call
    (s : ReleaseState)
    (c : ObjectCall) :
    Option ReleaseState :=
  match c.run s.held s.heap with
  | .error _ _ => none
  | .ok held heap => some { s with heap := heap, held := held }

/- `KListRemoveAllObjects` up to its loop. -/
def removeAll
    (s : ReleaseState)
    (list : KObjectRef) :
    Option ReleaseState :=
  match Heap.listItems list s.heap with
  | .error _ _ => none
  | .ok items heap =>
      some
        { s with
          heap := heap
          frames :=
            { owner := list
              left := items
              ending := .clear items.length } ::
              s.frames }

/- The innermost call releases its next item, or ends. -/
def proceed (s : ReleaseState) : Option ReleaseState :=
  match s.frames with
  | [] => none
  | f :: rest =>
      match f.left with
      | o :: left =>
          release
            { s with frames := { f with left := left } :: rest }
            o
      | [] =>
          match Heap.endRelease f s.heap with
          | .error _ _ => none
          | .ok _ heap =>
              some { s with heap := heap, frames := rest }

/- The client calls when no other call is under way. -/
def next (s : ReleaseState) :
    ReleaseStep → Option ReleaseState
| .call c =>
    if c.releasesNothing = true ∧ s.frames = [] then
      s.call c
    else
      none
| .objectRelease o =>
    if s.frames = [] then
      release
        { s with held := fun x => s.held x - [o].count x } o
    else
      none
| .listRemoveAllObjects list =>
    if s.frames = [] then s.removeAll list else none
| .proceed => s.proceed

end ReleaseState

/- The same objects, one release at a time. -/
def releaseSteps :
    TransitionSystem ReleaseState ReleaseStep where
  Init s :=
    s.heap = Heap.initial ∧ (∀ o, s.held o = 0) ∧
      s.frames = []
  step := ReleaseState.next

end KDoth

------------------------------------------------------------
-- Whole Calls
------------------------------------------------------------

namespace KDoth

namespace Heap

open Command

variable {h : Heap} {o : KObjectRef} {block : KControlBlock}

/- The heap with one reference less counted. -/
def taken
    (h : Heap)
    (o : KObjectRef)
    (block : KControlBlock) : Heap :=
  h.put o (some { block with refCount := block.refCount - 1 })

theorem deinitialized_taken_of_ne
    {x : KObjectRef}
    (h : Heap)
    (block : KControlBlock)
    (hNe : x ≠ o) :
    ((h.taken o block).deinitialized o).objects x =
      h.objects x :=
  put_objects_of_ne _ hNe

/- The word is decremented before its old value is tested. -/
theorem beginRelease_eq
    (hBlock : h.objects o = some block) :
    beginRelease o h =
      if block.refCount = 1 then
        .ok (some block.body.references)
          ((h.taken o block).deinitialized o)
      else
        .ok none (h.taken o block) := by
  have hTaken :
      (modify fun h : Heap => h.taken o block : HeapCall PUnit)
          h =
        .ok ⟨⟩ (h.taken o block) := rfl
  unfold beginRelease
  rw [bind_of_ok (read_apply hBlock)]
  refine (bind_of_ok hTaken).trans ?_
  split <;> rfl

/- A release that leaves the object alive. -/
theorem beginRelease_of_ne
    (hBlock : h.objects o = some block)
    (hMore : block.refCount ≠ 1) :
    beginRelease o h = .ok none (h.taken o block) := by
  rw [beginRelease_eq hBlock, if_neg hMore]

/- A release that calls the deinitializer. -/
theorem beginRelease_of_one
    (hBlock : h.objects o = some block)
    (hOne : block.refCount = 1) :
    beginRelease o h =
      .ok (some block.body.references)
        ((h.taken o block).deinitialized o) := by
  rw [beginRelease_eq hBlock, if_pos hOne]

/- `KObjectRelease` is its beginning and the rest of it. -/
theorem releaseObject_succ
    (depth : Nat)
    (o : KObjectRef) :
    releaseObject (depth + 1) o =
      (do
        match ← beginRelease o with
        | none => pure ()
        | some left => do
            forM left (releaseObject depth)
            modify fun h => h.put o none) := by
  rw [releaseObject, beginRelease]
  simp only [bind_assoc]
  congr
  funext block
  congr
  funext _
  split
  · simp only [bind_assoc, pure_bind]
  · simp only [pure_bind]

/- Without a deinitializer the beginning is all of it. -/
theorem beginRelease_of_zero
    {h' : Heap}
    (hRun : releaseObject 0 o h = .ok ⟨⟩ h') :
    beginRelease o h = .ok none h' := by
  rcases ok_of_bind hRun with ⟨block, h₁, hRead, hRest⟩
  rcases ok_of_bind hRest with ⟨u, h₂, hTaken, hEnd⟩
  unfold beginRelease
  rw [bind_of_ok hRead]
  refine (bind_of_ok hTaken).trans ?_
  by_cases hOne : block.refCount = 1
  · rw [if_pos hOne] at hEnd
    cases hEnd
  · rw [if_neg hOne] at hEnd ⊢
    cases hEnd
    rfl

end Heap

namespace ReleaseState

open Heap Command

variable {s : ReleaseState} {o : KObjectRef}
variable {depth : Nat} {heap : Heap}

/- The state with another heap. -/
def withHeap (s : ReleaseState) (heap : Heap) : ReleaseState :=
  { s with heap := heap }

/- The frame of a deinitializer that was just called. -/
def withFrame
    (s : ReleaseState)
    (heap : Heap)
    (o : KObjectRef)
    (left : List KObjectRef) : ReleaseState :=
  { s with
    heap := heap
    frames :=
      { owner := o, left := left, ending := .free } :: s.frames }

variable {block : KControlBlock}

theorem release_of_ne
    (hBlock : s.heap.objects o = some block)
    (hMore : block.refCount ≠ 1) :
    s.release o = some (s.withHeap (s.heap.taken o block)) := by
  unfold release
  rw [beginRelease_of_ne hBlock hMore]
  rfl

theorem release_of_one
    (hBlock : s.heap.objects o = some block)
    (hOne : block.refCount = 1) :
    s.release o =
      some
        (s.withFrame ((s.heap.taken o block).deinitialized o) o
          block.body.references) := by
  unfold release
  rw [beginRelease_of_one hBlock hOne]
  rfl

/-
  A command on the heap that returns does what releasing an
  object and going on does.
-/
def Performs (release : KObjectRef → HeapCall Unit) : Prop :=
  ∀ (s : ReleaseState) (o : KObjectRef) (heap : Heap),
    release o s.heap = .ok ⟨⟩ heap →
      ∃ next,
        s.release o = some next ∧
          releaseSteps.Leads next (s.withHeap heap)

/- A call that has released all its items ends. -/
theorem proceed_of_end
    {graph : ObjectGraph}
    {owner : KObjectRef}
    {ending : ReleaseEnd}
    {rest : List ReleaseFrame}
    (hEnd :
      endRelease { owner := owner, left := [], ending := ending }
          graph.heap =
        .ok ⟨⟩ heap) :
    proceed
        { graph with
          frames :=
            { owner := owner, left := [], ending := ending } ::
              rest } =
      some { graph with heap := heap, frames := rest } := by
  unfold proceed
  simp only [hEnd]

/- The items of a frame, one after the other. -/
theorem Performs.forM
    {release : KObjectRef → HeapCall Unit}
    (hPerforms : Performs release)
    (owner : KObjectRef)
    (ending : ReleaseEnd)
    (rest : List ReleaseFrame)
    {left : List KObjectRef}
    (graph : ObjectGraph)
    (hRun : forM left release graph.heap = .ok ⟨⟩ heap) :
    releaseSteps.Leads
      { graph with
        frames :=
          { owner := owner, left := left, ending := ending } ::
            rest }
      { graph with
        heap := heap
        frames :=
          { owner := owner, left := [], ending := ending } ::
            rest } := by
  induction left generalizing graph with
  | nil =>
      cases hRun
      exact .refl _
  | cons o left ih =>
      rw [List.forM_cons] at hRun
      rcases ok_of_bind hRun with ⟨u, h', hFirst, hRest⟩
      rcases
          hPerforms
            { graph with
              frames :=
                { owner := owner
                  left := left
                  ending := ending } :: rest }
            o h' hFirst with
        ⟨next, hNext, hLeads⟩
      have hLater := ih { graph with heap := h' } hRest
      refine .trans (.single (l := ReleaseStep.proceed) ?_)
        (hLeads.trans hLater)
      exact hNext

/-
  `KObjectRelease` in the heap is its steps, by induction on
  the depth of the deinitializers.
-/
theorem performs_releaseObject (depth : Nat) :
    Performs (releaseObject depth) := by
  induction depth with
  | zero =>
      intro s o heap hRun
      have hBegin := beginRelease_of_zero hRun
      refine ⟨s.withHeap heap, ?_, .refl _⟩
      unfold release
      rw [hBegin]
      rfl
  | succ depth ih =>
      intro s o heap hRun
      rw [releaseObject_succ] at hRun
      rcases ok_of_bind hRun with ⟨r, h₁, hBegin, hRest⟩
      cases r with
      | none =>
          cases hRest
          refine ⟨s.withHeap heap, ?_, .refl _⟩
          unfold release
          rw [hBegin]
          rfl
      | some left =>
          rcases ok_of_bind hRest with ⟨u, h₂, hItems, hFree⟩
          cases hFree
          refine ⟨s.withFrame h₁ o left, ?_, ?_⟩
          · unfold release
            rw [hBegin]
            rfl
          · have hLoop :=
              ih.forM o .free s.frames
                { heap := h₁, held := s.held } hItems
            refine hLoop.trans (.single (l := ReleaseStep.proceed) ?_)
            rfl

/- The same with the depth that `KObjectRelease` chooses. -/
theorem performs_objectRelease :
    Performs (fun o => Heap.objectRelease (some o)) := by
  intro s o heap hRun
  exact
    performs_releaseObject s.heap.nextAddress s o heap hRun

/- A call that releases nothing is a step. -/
theorem leads_of_call
    {graph : ObjectGraph}
    {held : KObjectRef → Nat}
    {c : ObjectCall}
    (hCall : c.releasesNothing = true)
    (hRun : c.run graph.held graph.heap = .ok held heap) :
    releaseSteps.Leads { graph with frames := [] }
      { heap := heap, held := held, frames := [] } := by
  refine .single (l := ReleaseStep.call c) ?_
  change
    (if c.releasesNothing = true ∧
          ([] : List ReleaseFrame) = [] then
        call { graph with frames := [] } c
      else
        none) = _
  rw [if_pos ⟨hCall, rfl⟩]
  unfold call
  rw [hRun]

/- `KListRemoveAllObjects` in the heap is its steps. -/
theorem leads_of_listRemoveAllObjects
    {graph : ObjectGraph}
    {list : KObjectRef}
    {removed : Nat}
    (hRun :
      listRemoveAllObjects (some list) graph.heap =
        .ok removed heap) :
    releaseSteps.Leads { graph with frames := [] }
      { graph with heap := heap, frames := [] } := by
  rcases ok_of_bind hRun with ⟨items, h₁, hItems, hRest⟩
  rcases ok_of_bind hRest with ⟨u, h₂, hLoop, hEnd⟩
  rcases ok_of_bind hEnd with ⟨left, h₃, hLeft, hLast⟩
  have hStart :
      releaseSteps.step { graph with frames := [] }
          (.listRemoveAllObjects list) =
        some
          { graph with
            heap := h₁
            frames :=
              [{ owner := list
                 left := items
                 ending := .clear items.length }] } := by
    change removeAll { graph with frames := [] } list = _
    unfold removeAll
    rw [hItems]
  have hReleases :=
    performs_objectRelease.forM list (.clear items.length) []
      { heap := h₁, held := graph.held } hLoop
  have hClear :
      endRelease
          { owner := list
            left := []
            ending := .clear items.length } h₂ =
        .ok ⟨⟩ heap := by
    refine (bind_of_ok hLeft).trans ?_
    by_cases hSame : items.length = left.length
    · rw [if_pos hSame] at hLast ⊢
      rcases ok_of_bind hLast with ⟨u, h₄, hSet, hReturn⟩
      cases hReturn
      exact hSet
    · rw [if_neg hSame] at hLast
      cases hLast
  exact
    ((TransitionSystem.Leads.single hStart).trans
      hReleases).trans
        (.single (l := ReleaseStep.proceed)
          (proceed_of_end hClear))

/-
  Every call on objects and lists is a run of small steps
  with the same outcome.
-/
theorem leads_of_objectGraph
    {graph graph' : ObjectGraph}
    {c : ObjectCall}
    (hCall : c.onLists = true)
    (hStep : objectGraph.step graph c = some graph') :
    releaseSteps.Leads { graph with frames := [] }
      { graph' with frames := [] } := by
  cases hRun : c.run graph.held graph.heap with
  | error e h' => simp [objectGraph, hRun] at hStep
  | ok held heap =>
      simp only [objectGraph, hRun, Option.some.injEq]
        at hStep
      subst hStep
      cases c with
      | objectRelease o =>
          rcases ok_of_bind hRun with ⟨u, h₁, hRelease, hHeld⟩
          cases hHeld
          cases o with
          | none =>
              cases hRelease
              exact .refl _
          | some o =>
              rcases
                  performs_objectRelease
                    { graph with
                      held := fun x => graph.held x - [o].count x
                      frames := [] }
                    o heap hRelease with
                ⟨next, hNext, hLeads⟩
              refine
                .trans
                  (.single (l := ReleaseStep.objectRelease o) ?_)
                  hLeads
              exact hNext
      | listRemoveAllObjects list =>
          rcases ok_of_bind hRun with ⟨u, h₁, hRemove, hHeld⟩
          cases hHeld
          cases list with
          | none =>
              cases hRemove
              exact .refl _
          | some list => exact leads_of_listRemoveAllObjects hRemove
      | _ =>
          apply leads_of_call _ hRun
          exact hCall

end ReleaseState

end KDoth
