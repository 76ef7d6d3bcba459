import KDoth.Files.FileProcess

/-
  What the calls of `FileProcess` keep: counts that are the
  numbers of references, an open number for each handle that
  was not closed, and mapped pages for each file mapping.

  Key definitions include:
    * `FileProcess.graph`
    * `FileProcess.HoldsNumber`
    * `FileProcess.HoldsPage`
    * `FileProcess.Counted`
    * `FileProcess.Views`
    * `FileProcess.Tabled`
    * `FileProcess.Kept`

  Key theorems include:
    * `FileProcess.Counted.alloc`
    * `FileProcess.Counted.free`
    * `FileProcess.Kept.fileHandleNew`
    * `FileProcess.Kept.close`
    * `FileProcess.Kept.newMapping`
    * `FileProcess.Kept.mappingNew`
    * `FileProcess.Kept.proceed`
-/

------------------------------------------------------------
-- What Is Kept
------------------------------------------------------------

namespace KDoth

namespace FileProcess

variable {File : Type}

/- The objects and the references between them. -/
def graph (s : FileProcess File) : RefGraph KObjectRef where
  nodes := s.live
  out := fun o => (s.object o).references

/- The number of a handle that was not closed. -/
def HoldsNumber
    (s : FileProcess File)
    (o : KObjectRef)
    (number : Nat) : Prop :=
  o ∈ s.live ∧ s.object o = .fileHandle ⟨number, false⟩

/- The pages of a file mapping. -/
def HoldsPage
    (pageSize : Nat)
    (s : FileProcess File)
    (o : KObjectRef)
    (page : Nat) : Prop :=
  ∃ mapping size,
    o ∈ s.live ∧ s.object o = .fileMapping mapping size ∧
      InPages pageSize mapping size page

/-
  Counts are the numbers of references, with the local ones
  of a call among them.
-/
structure Counted
    (s : FileProcess File)
    (locals : List KObjectRef) : Prop where
  balanced :
    s.graph.Balanced (fun o => (s.refCount o).toNat) s.held
      (locals ++ s.releasing)
  graded : s.graph.Graded

/-
  A mapping made for a file has the pages of a file mapping
  as its buffer.
-/
def Views (s : FileProcess File) : Prop :=
  ∀ k ∈ s.live, s.ofFile k = true →
    ∃ m mapping size,
      s.object k = .mapping mapping size (some m) ∧
        s.object m = .fileMapping mapping size ∧
          s.mapped k = s.mapped m

/- The system knows the numbers and pages of the objects. -/
structure Tabled
    (pageSize : Nat)
    (s : FileProcess File) : Prop where
  descriptors : s.descriptors.Keeps s.HoldsNumber s.opened
  pages : s.pages.Keeps (s.HoldsPage pageSize) s.mapped
  views : s.Views
  astray : s.astray = false

structure Kept
    (pageSize : Nat)
    (s : FileProcess File)
    (locals : List KObjectRef) : Prop where
  counted : s.Counted locals
  tabled : s.Tabled pageSize

/- No count is about to wrap. -/
def Roomy (s : FileProcess File) : Prop :=
  ∀ o ∈ s.live, (s.refCount o).toNat + 1 < 2 ^ 32

end FileProcess

end KDoth

------------------------------------------------------------
-- Counts
------------------------------------------------------------

namespace KDoth

namespace FileProcess

variable {File : Type}
variable {s : FileProcess File} {locals : List KObjectRef}
variable {o k : KObjectRef}

theorem graph_alloc
    (s : FileProcess File)
    (o : KObjectRef)
    (object : FileObject) :
    (s.alloc o object).graph =
      s.graph.insert o object.references := by
  unfold graph RefGraph.insert alloc
  congr 1
  funext x
  by_cases hSame : x = o
  · subst hSame
    simp
  · simp [hSame]

/- A handle holds no references, closed or not. -/
theorem graph_setClosed
    {handle : KFileHandle}
    (hObject : s.object o = .fileHandle handle)
    (number : Nat)
    (closed : Bool) :
    (s.setClosed o number closed).graph = s.graph := by
  unfold graph
  congr 1
  funext x
  by_cases hSame : x = o
  · subst hSame
    simp [setClosed, hObject, FileObject.references]
  · simp [setClosed, hSame]

/- The user data of a mapping is held by it. -/
theorem mem_references_of_userData
    (hUser : s.getUserData k = some o) :
    o ∈ (s.object k).references := by
  unfold getUserData at hUser
  split at hUser
  · rename_i hObject
    rw [hObject, hUser]
    simp [FileObject.references]
  · cases hUser

/- The counts with one of them changed. -/
theorem toNat_update
    (counts : KObjectRef → UInt32)
    (o : KObjectRef)
    (word : UInt32) :
    (fun x => (Function.update counts o word x).toNat) =
      Function.update (fun x => (counts x).toNat) o
        word.toNat := by
  funext x
  by_cases hSame : x = o
  · subst hSame
    simp
  · simp [hSame]

namespace Counted

/- A new object takes over local references. -/
theorem alloc
    {object : FileObject}
    (hCounted :
      s.Counted (object.references ++ locals))
    (hNew : o ∉ s.live) :
    (s.alloc o object).Counted (o :: locals) := by
  have hBal := hCounted.balanced
  rw [List.append_assoc] at hBal
  have hNone := hBal.closed o hNew
  rw [List.count_append] at hNone
  have hSelf : o ∉ object.references := by
    rw [← List.count_eq_zero]
    omega
  have hAlone : ∀ a ∈ s.graph.nodes, o ∉ s.graph.out a := by
    intro a ha hEdge
    have hPos := RefGraph.inDegree_pos ha hEdge
    omega
  constructor
  · rw [graph_alloc]
    show RefGraph.Balanced _
      (fun x =>
        (Function.update s.refCount o 1 x).toNat) _ _
    rw [toNat_update]
    exact hBal.insert hNew
  · rw [graph_alloc]
    exact hCounted.graded.insert hNew hAlone hSelf

/- An object whose reference is local is live. -/
theorem mem_of_local
    (hCounted : s.Counted (o :: locals)) :
    o ∈ s.live :=
  hCounted.balanced.mem_of_pending

/- An object that the code holds is live. -/
theorem mem_of_held
    (hCounted : s.Counted locals)
    (hHeld : 0 < s.held o) :
    o ∈ s.live :=
  hCounted.balanced.mem_of_rooted (.root hHeld)

/- An object that a live one refers to is live. -/
theorem mem_of_edge
    (hCounted : s.Counted locals)
    (hLive : k ∈ s.live)
    (hEdge : o ∈ (s.object k).references) :
    o ∈ s.live := by
  by_contra hNot
  have hNone := hCounted.balanced.closed o hNot
  have hPos :=
    RefGraph.inDegree_pos (g := s.graph) hLive hEdge
  omega

theorem retain
    (hCounted : s.Counted locals)
    (hLive : o ∈ s.live)
    (hRoom : (s.refCount o).toNat + 1 < 2 ^ 32) :
    (s.retain o).Counted (o :: locals) := by
  have hNat :
      (s.refCount o + 1).toNat = (s.refCount o).toNat + 1 := by
    rw [UInt32.toNat_add]
    exact Nat.mod_eq_of_lt hRoom
  constructor
  · show RefGraph.Balanced s.graph
      (fun x =>
        (Function.update s.refCount o
          (s.refCount o + 1) x).toNat) _ _
    rw [toNat_update, hNat]
    exact hCounted.balanced.retain hLive
  · exact hCounted.graded

/- A local reference is passed on. -/
theorem hold
    (hCounted : s.Counted (o :: locals)) :
    (s.hold o).Counted locals := by
  constructor
  · apply hCounted.balanced.shift
    intro x
    by_cases hSame : x = o
    · subst hSame
      simp [FileProcess.hold]
      omega
    · simp [FileProcess.hold, hSame, Ne.symm hSame]
  · exact hCounted.graded

/- A reference is taken from the code that holds it. -/
theorem unhold
    (hCounted : s.Counted locals)
    (hHeld : 0 < s.held o) :
    (s.unhold o).Counted (o :: locals) := by
  constructor
  · apply hCounted.balanced.shift
    intro x
    by_cases hSame : x = o
    · subst hSame
      simp [FileProcess.unhold]
      omega
    · simp [FileProcess.unhold, hSame, Ne.symm hSame]
  · exact hCounted.graded

/- A local reference is released. -/
theorem startRelease
    (hCounted : s.Counted (o :: locals)) :
    (s.startRelease o).Counted locals := by
  constructor
  · apply hCounted.balanced.shift
    intro x
    simp only [FileProcess.startRelease, List.count_append,
      List.count_cons]
    omega
  · exact hCounted.graded

/- The reference that a release under way gives up. -/
theorem pending
    (hCounted : s.Counted locals)
    (hReleased : o ∈ s.releasing) :
    s.graph.Balanced (fun x => (s.refCount x).toNat) s.held
      (o :: (locals ++ s.releasing.erase o)) := by
  apply hCounted.balanced.shift
  intro x
  have hErased :=
    (List.perm_cons_erase hReleased).count_eq x
  rw [List.count_cons] at hErased ⊢
  rw [List.count_append, List.count_append]
  omega

/- What a release does to the count, if it is not the last. -/
theorem drop
    (hCounted : s.Counted locals)
    (hReleased : o ∈ s.releasing)
    (hMore : s.refCount o ≠ 1) :
    Counted
      { s with
        releasing := s.releasing.erase o
        refCount :=
          Function.update s.refCount o (s.refCount o - 1) }
      locals := by
  have hPending := hCounted.pending hReleased
  have hNotOne : (s.refCount o).toNat ≠ 1 := by
    intro hOne
    exact hMore (UInt32.toNat_inj.mp hOne)
  have hPos := hPending.positive o hPending.mem_of_pending
  have hNat :
      (s.refCount o - 1).toNat = (s.refCount o).toNat - 1 :=
    UInt32.toNat_sub_of_le _ _ (by
      rw [UInt32.le_iff_toNat_le]
      exact hPos)
  constructor
  · show RefGraph.Balanced s.graph
      (fun x =>
        (Function.update s.refCount o
          (s.refCount o - 1) x).toNat) _ _
    rw [toNat_update, hNat]
    exact hPending.drop hNotOne
  · exact hCounted.graded

/-
  An object leaves with its last reference, and those it
  held are local.
-/
theorem free
    {s' : FileProcess File}
    (hCounted : s.Counted locals)
    (hReleased : o ∈ s.releasing)
    (hLast : s.refCount o = 1)
    (hLive : s'.live = s.live.erase o)
    (hOut :
      ∀ x,
        (s'.object x).references = (s.object x).references)
    (hCounts : ∀ x, x ≠ o → s'.refCount x = s.refCount x)
    (hHeld : s'.held = s.held)
    (hReleasing : s'.releasing = s.releasing.erase o) :
    s'.Counted ((s.object o).references ++ locals) := by
  have hPending := hCounted.pending hReleased
  have hOne : (s.refCount o).toNat = 1 := by
    rw [hLast]
    rfl
  have hGraph : s'.graph = s.graph.erase o := by
    unfold graph RefGraph.erase
    rw [hLive]
    congr 1
    funext x
    exact hOut x
  constructor
  · have hDead := hPending.die hOne
    rw [hGraph, hHeld, hReleasing, List.append_assoc]
    apply hDead.congr
    intro x hx
    show (s'.refCount x).toNat = _
    rw [hCounts x (Finset.ne_of_mem_erase hx)]
  · rw [hGraph]
    exact hCounted.graded.erase o

end Counted

end FileProcess

end KDoth

------------------------------------------------------------
-- Tables
------------------------------------------------------------

namespace KDoth

namespace FileProcess

variable {File : Type} {pageSize : Nat}
variable {s : FileProcess File}
variable {o o' k : KObjectRef}

theorem holdsNumber_alloc_self
    {object : FileObject}
    {number : Nat} :
    (s.alloc o object).HoldsNumber o number ↔
      object = .fileHandle ⟨number, false⟩ := by
  simp [HoldsNumber, alloc]

theorem holdsNumber_alloc_of_ne
    {object : FileObject}
    {number : Nat}
    (hNe : o' ≠ o) :
    (s.alloc o object).HoldsNumber o' number ↔
      s.HoldsNumber o' number := by
  simp [HoldsNumber, alloc, hNe]

theorem holdsPage_alloc_self
    {object : FileObject}
    {page : Nat} :
    (s.alloc o object).HoldsPage pageSize o page ↔
      ∃ mapping size,
        object = .fileMapping mapping size ∧
          InPages pageSize mapping size page := by
  simp [HoldsPage, alloc]

theorem holdsPage_alloc_of_ne
    {object : FileObject}
    {page : Nat}
    (hNe : o' ≠ o) :
    (s.alloc o object).HoldsPage pageSize o' page ↔
      s.HoldsPage pageSize o' page := by
  simp [HoldsPage, alloc, hNe]

/- What is not live holds nothing of the system. -/
theorem not_holdsNumber
    {number : Nat}
    (hNew : o ∉ s.live) :
    ¬ s.HoldsNumber o number :=
  fun hHolds => hNew hHolds.1

theorem not_holdsPage
    {page : Nat}
    (hNew : o ∉ s.live) :
    ¬ s.HoldsPage pageSize o page := by
  rintro ⟨_, _, hLive, _⟩
  exact hNew hLive

/- An object that is new is in nobody's view. -/
theorem Views.alloc
    {locals : List KObjectRef}
    {object : FileObject}
    {mapped : KObjectRef → MappedFile File}
    (hViews : s.Views)
    (hCounted : s.Counted locals)
    (hNew : o ∉ s.live)
    (hMapped : ∀ x, x ≠ o → mapped x = s.mapped x) :
    Views { s.alloc o object with mapped := mapped } := by
  intro k hLive hFile
  have hNe : k ≠ o := by
    rintro rfl
    simp [FileProcess.alloc] at hFile
  have hOld : k ∈ s.live :=
    Finset.mem_of_mem_insert_of_ne hLive hNe
  have hWas : s.ofFile k = true := by
    simpa [FileProcess.alloc, hNe] using hFile
  rcases hViews k hOld hWas with
    ⟨m, mapping, size, hMapping, hPages, hSame⟩
  have hLiveToo : m ∈ s.live :=
    hCounted.mem_of_edge hOld (by
      rw [hMapping]
      simp [FileObject.references])
  have hNeToo : m ≠ o := by
    rintro rfl
    exact hNew hLiveToo
  refine ⟨m, mapping, size, ?_, ?_, ?_⟩
  · simpa [FileProcess.alloc, hNe] using hMapping
  · simpa [FileProcess.alloc, hNeToo] using hPages
  · show mapped k = mapped m
    rw [hMapped k hNe, hMapped m hNeToo]
    exact hSame

namespace Tabled

/- A new mapping has nothing of the system. -/
theorem alloc_mapping
    {locals : List KObjectRef}
    {mapping count : Nat}
    {userData : Option KObjectRef}
    (hTabled : s.Tabled pageSize)
    (hCounted : s.Counted locals)
    (hNew : k ∉ s.live) :
    (s.alloc k (.mapping mapping count userData)).Tabled
      pageSize where
  descriptors := by
    apply hTabled.descriptors.congr
    · intro o number
      by_cases hSame : o = k
      · subst hSame
        rw [holdsNumber_alloc_self]
        exact iff_of_false nofun (not_holdsNumber hNew)
      · exact holdsNumber_alloc_of_ne hSame
    · intro o number _
      rfl
  pages := by
    apply hTabled.pages.congr
    · intro o page
      by_cases hSame : o = k
      · subst hSame
        rw [holdsPage_alloc_self]
        apply iff_of_false
        · rintro ⟨_, _, hObject, _⟩
          cases hObject
        · exact not_holdsPage hNew
      · exact holdsPage_alloc_of_ne hSame
    · intro o page _
      rfl
  views := hTabled.views.alloc hCounted hNew fun _ _ => rfl
  astray := hTabled.astray

/- A new handle has the number that `open` returned. -/
theorem openHandle
    {locals : List KObjectRef}
    {number : Nat}
    {file : File}
    (hTabled : s.Tabled pageSize)
    (hCounted : s.Counted locals)
    (hNew : o ∉ s.live)
    (hFree : s.descriptors number = none) :
    (s.openHandle o number file).Tabled pageSize where
  descriptors := by
    have hClaim :=
      hTabled.descriptors.claim (o := o) (· = number)
        (s.openHandle o number file).HoldsNumber
        (Function.update s.opened o file)
        (by
          rintro i rfl
          exact hFree)
        (by
          intro i
          apply holdsNumber_alloc_self.trans
          simp [eq_comm])
        (fun o' hNe i => holdsNumber_alloc_of_ne hNe)
        (fun i => not_holdsNumber hNew)
        (fun o' hNe => Function.update_of_ne hNe _ _)
    rw [Function.update_self] at hClaim
    exact hClaim
  pages := by
    apply hTabled.pages.congr
    · intro x page
      by_cases hSame : x = o
      · subst hSame
        apply holdsPage_alloc_self.trans
        apply iff_of_false
        · rintro ⟨_, _, hObject, _⟩
          cases hObject
        · exact not_holdsPage hNew
      · exact holdsPage_alloc_of_ne hSame
    · intro x page _
      rfl
  views := hTabled.views.alloc hCounted hNew fun _ _ => rfl
  astray := hTabled.astray

/- A new file mapping has the pages that `mmap` returned. -/
theorem mapPages
    {locals : List KObjectRef}
    {mapping size : Nat}
    {contents : MappedFile File}
    (hTabled : s.Tabled pageSize)
    (hCounted : s.Counted locals)
    (hNew : o ∉ s.live)
    (hFree :
      ∀ page, InPages pageSize mapping size page →
        s.pages page = none) :
    (s.mapPages pageSize o mapping size contents).Tabled
      pageSize where
  descriptors := by
    apply hTabled.descriptors.congr
    · intro x number
      by_cases hSame : x = o
      · subst hSame
        apply holdsNumber_alloc_self.trans
        exact iff_of_false nofun (not_holdsNumber hNew)
      · exact holdsNumber_alloc_of_ne hSame
    · intro x number _
      rfl
  pages := by
    have hClaim :=
      hTabled.pages.claim (o := o)
        (InPages pageSize mapping size)
        ((s.mapPages pageSize o mapping size
          contents).HoldsPage pageSize)
        (Function.update s.mapped o contents)
        hFree
        (by
          intro i
          apply holdsPage_alloc_self.trans
          constructor
          · rintro ⟨_, _, hObject, hIn⟩
            cases hObject
            exact hIn
          · intro hIn
            exact ⟨mapping, size, rfl, hIn⟩)
        (fun o' hNe i => holdsPage_alloc_of_ne hNe)
        (fun i => not_holdsPage hNew)
        (fun o' hNe => Function.update_of_ne hNe _ _)
    rw [Function.update_self] at hClaim
    exact hClaim
  views :=
    hTabled.views.alloc hCounted hNew
      fun _ hNe => Function.update_of_ne hNe _ _
  astray := hTabled.astray

/- The system is called on the number of the handle. -/
theorem useNumber
    {number : Nat}
    (hTabled : s.Tabled pageSize)
    (hHolds : s.HoldsNumber o number) :
    s.useNumber o number = s := by
  have hOwn := hTabled.descriptors.belongsTo hHolds
  have hAstray :
      (s.astray ||
        !decide (s.descriptors.BelongsTo number o)) =
          s.astray := by
    simp [hOwn]
  unfold FileProcess.useNumber
  rw [hAstray]

/- The number of a handle is taken back. -/
theorem closeHandle
    {number : Nat}
    (hTabled : s.Tabled pageSize)
    (hHolds : s.HoldsNumber o number) :
    ((s.takeBack o number).setClosed o number true).Tabled
      pageSize := by
  rw [takeBack, hTabled.useNumber hHolds]
  have hOther {x : KObjectRef} (hNe : x ≠ o) :
      Function.update s.object o
          (.fileHandle ⟨number, true⟩) x =
        s.object x :=
    Function.update_of_ne hNe _ _
  constructor
  · refine
      hTabled.descriptors.clear (o := o) (· = number) _
        ?_ ?_ ?_
    · intro i
      constructor
      · rintro rfl
        exact hHolds
      · intro hAlso
        have hTwice := hHolds.2.symm.trans hAlso.2
        cases hTwice
        rfl
    · rintro i ⟨_, hObject⟩
      simp [setClosed] at hObject
    · intro x hNe i
      simp [HoldsNumber, setClosed, hOther hNe]
  · apply hTabled.pages.congr
    · intro x page
      by_cases hSame : x = o
      · subst hSame
        apply iff_of_false
        · rintro ⟨_, _, _, hObject, _⟩
          simp [setClosed] at hObject
        · rintro ⟨_, _, _, hObject, _⟩
          rw [hHolds.2] at hObject
          cases hObject
      · simp [HoldsPage, setClosed, hOther hSame]
    · intro x page _
      rfl
  · intro x hLive hFile
    rcases hTabled.views x hLive hFile with
      ⟨m, mapping, size, hMapping, hPages, hSame⟩
    have hNe : x ≠ o := by
      rintro rfl
      rw [hHolds.2] at hMapping
      cases hMapping
    have hNeToo : m ≠ o := by
      rintro rfl
      rw [hHolds.2] at hPages
      cases hPages
    exact
      ⟨m, mapping, size, (hOther hNe).trans hMapping,
        (hOther hNeToo).trans hPages, hSame⟩
  · exact hTabled.astray

/- An object that has nothing of the system leaves. -/
theorem free
    (hTabled : s.Tabled pageSize)
    (hNumbers : ∀ number, ¬ s.HoldsNumber o number)
    (hPages : ∀ page, ¬ s.HoldsPage pageSize o page) :
    (s.free o).Tabled pageSize where
  descriptors := by
    apply hTabled.descriptors.congr
    · intro x number
      by_cases hSame : x = o
      · subst hSame
        apply iff_of_false _ (hNumbers number)
        simp [HoldsNumber, FileProcess.free]
      · simp [HoldsNumber, FileProcess.free, hSame]
    · intro x number _
      rfl
  pages := by
    apply hTabled.pages.congr
    · intro x page
      by_cases hSame : x = o
      · subst hSame
        apply iff_of_false _ (hPages page)
        simp [HoldsPage, FileProcess.free]
      · simp [HoldsPage, FileProcess.free, hSame]
    · intro x page _
      rfl
  views := fun k hLive =>
    hTabled.views k (Finset.mem_of_mem_erase hLive)
  astray := hTabled.astray

/- A file mapping leaves, and its pages are unmapped. -/
theorem unmap
    {mapping size : Nat}
    (hTabled : s.Tabled pageSize)
    (hLive : o ∈ s.live)
    (hObject : s.object o = .fileMapping mapping size) :
    ((s.unmapPages pageSize o mapping size).free o).Tabled
      pageSize where
  descriptors := by
    apply hTabled.descriptors.congr
    · intro x number
      by_cases hSame : x = o
      · subst hSame
        apply iff_of_false
        · simp [HoldsNumber, FileProcess.free]
        · rintro ⟨_, hHandle⟩
          rw [hObject] at hHandle
          cases hHandle
      · simp [HoldsNumber, FileProcess.free, unmapPages,
          hSame]
    · intro x number _
      rfl
  pages := by
    refine
      hTabled.pages.clear (o := o)
        (InPages pageSize mapping size) _ ?_ ?_ ?_
    · intro page
      constructor
      · intro hIn
        exact ⟨mapping, size, hLive, hObject, hIn⟩
      · rintro ⟨mapping', size', _, hSame, hIn⟩
        rw [hObject] at hSame
        cases hSame
        exact hIn
    · intro page
      simp [HoldsPage, FileProcess.free]
    · intro x hNe page
      simp [HoldsPage, FileProcess.free, unmapPages, hNe]
  views := fun k hMem =>
    hTabled.views k (Finset.mem_of_mem_erase hMem)
  astray := by
    have hAll :
        ((List.range' (mapping / pageSize)
            ((size + pageSize - 1) / pageSize)).all fun page =>
          decide (s.pages.BelongsTo page o)) = true := by
      rw [List.all_eq_true]
      intro page hPage
      rw [List.mem_range'_1] at hPage
      exact
        decide_eq_true
          (hTabled.pages.belongsTo
            ⟨mapping, size, hLive, hObject, hPage⟩)
    simp [FileProcess.free, unmapPages, hAll,
      hTabled.astray]

end Tabled

end FileProcess

end KDoth

------------------------------------------------------------
-- Calls
------------------------------------------------------------

namespace KDoth

namespace FileProcess

variable {File : Type} {pageSize : Nat}
variable {s : FileProcess File}
variable {locals : List KObjectRef} {o k m : KObjectRef}

/- Unless the process has aborted, everything is kept. -/
def Sound (pageSize : Nat) (s : FileProcess File) : Prop :=
  s.aborted = false → s.Kept pageSize []

theorem sound_abort (s : FileProcess File) :
    s.abort.Sound pageSize := by
  intro hGoes
  cases hGoes

namespace Kept

theorem sound
    (hKept : s.Kept pageSize []) :
    s.Sound pageSize :=
  fun _ => hKept

/- Tables are not changed by references. -/
theorem retain
    (hKept : s.Kept pageSize locals)
    (hLive : o ∈ s.live)
    (hRoom : (s.refCount o).toNat + 1 < 2 ^ 32) :
    (s.retain o).Kept pageSize (o :: locals) where
  counted := hKept.counted.retain hLive hRoom
  tabled :=
    ⟨hKept.tabled.descriptors, hKept.tabled.pages,
      hKept.tabled.views, hKept.tabled.astray⟩

theorem hold
    (hKept : s.Kept pageSize (o :: locals)) :
    (s.hold o).Kept pageSize locals where
  counted := hKept.counted.hold
  tabled :=
    ⟨hKept.tabled.descriptors, hKept.tabled.pages,
      hKept.tabled.views, hKept.tabled.astray⟩

theorem unhold
    (hKept : s.Kept pageSize locals)
    (hHeld : 0 < s.held o) :
    (s.unhold o).Kept pageSize (o :: locals) where
  counted := hKept.counted.unhold hHeld
  tabled :=
    ⟨hKept.tabled.descriptors, hKept.tabled.pages,
      hKept.tabled.views, hKept.tabled.astray⟩

theorem startRelease
    (hKept : s.Kept pageSize (o :: locals)) :
    (s.startRelease o).Kept pageSize locals where
  counted := hKept.counted.startRelease
  tabled :=
    ⟨hKept.tabled.descriptors, hKept.tabled.pages,
      hKept.tabled.views, hKept.tabled.astray⟩

/- `KFileHandleNew` -/
theorem fileHandleNew
    {answer : Option (Nat × File)}
    {object : Option KObjectRef}
    (hKept : s.Kept pageSize [])
    (hNew : s.New object)
    (hFree : ∀ a ∈ answer, (s.descriptors a.1).isNone) :
    (s.fileHandleNew answer object).2.Sound pageSize := by
  match answer, object with
  | none, _ => exact hKept.sound
  | some _, none => exact sound_abort s
  | some (number, file), some o =>
      have hUnused : s.descriptors number = none := by
        simpa using hFree _ rfl
      have hCounted :
          (s.alloc o (.fileHandle ⟨number, false⟩)).Counted
            [o] :=
        Counted.alloc hKept.counted (hNew o rfl)
      have hOpened :
          (s.openHandle o number file).Kept pageSize [o] :=
        ⟨⟨hCounted.balanced, hCounted.graded⟩,
          hKept.tabled.openHandle hKept.counted (hNew o rfl)
            hUnused⟩
      exact hOpened.hold.sound

/- A handle whose number is taken back is closed. -/
theorem closeHandle
    {number : Nat}
    (hKept : s.Kept pageSize locals)
    (hHolds : s.HoldsNumber o number) :
    ((s.takeBack o number).setClosed o number true).Kept
      pageSize locals where
  counted := by
    have hGraph :
        ((s.takeBack o number).setClosed o number true).graph =
          s.graph :=
      graph_setClosed (s := s.takeBack o number) hHolds.2
        number true
    constructor
    · rw [hGraph]
      exact hKept.counted.balanced
    · rw [hGraph]
      exact hKept.counted.graded
  tabled := hKept.tabled.closeHandle hHolds

/- `KFileHandleClose`, when the system answers 0. -/
theorem close
    (hKept : s.Kept pageSize locals)
    (hLive : o ∈ s.live) :
    (s.close o [.success]).2.Kept pageSize locals := by
  unfold FileProcess.close
  split
  · rename_i handle hObject
    rcases handle with ⟨number, _ | _⟩
    · exact hKept.closeHandle ⟨hLive, hObject⟩
    · exact hKept
  · exact hKept

/- `KFileHandleGetSize` -/
theorem getSize
    (hKept : s.Kept pageSize locals)
    (hLive : o ∈ s.live)
    (sizeOut : Bool)
    (fstat : File → Option Nat) :
    (s.getSize o sizeOut fstat).2 = s := by
  unfold FileProcess.getSize
  split
  · rename_i handle hObject
    rcases handle with ⟨number, _ | _⟩
    · split
      · rfl
      · exact hKept.tabled.useNumber ⟨hLive, hObject⟩
    · rfl
  · rfl

/- `KMappingNew` -/
theorem mappingNew
    {buffer count : Nat}
    {userData object : Option KObjectRef}
    (hKept : s.Kept pageSize locals)
    (hLive : ∀ o ∈ userData, o ∈ s.live)
    (hRoom :
      ∀ o ∈ userData, (s.refCount o).toNat + 1 < 2 ^ 32)
    (hNew : s.New object) :
    (s.mappingNew buffer count userData object).2.Kept
      pageSize locals := by
  match object, userData with
  | none, _ => exact hKept
  | some k, none =>
      have hAlloc :
          (s.alloc k (.mapping buffer count none)).Kept
            pageSize (k :: locals) :=
        ⟨Counted.alloc hKept.counted (hNew k rfl),
          hKept.tabled.alloc_mapping hKept.counted
            (hNew k rfl)⟩
      exact hAlloc.hold
  | some k, some o =>
      have hRetained :=
        hKept.retain (hLive o rfl) (hRoom o rfl)
      have hAlloc :
          ((s.retain o).alloc k
              (.mapping buffer count (some o))).Kept
            pageSize (k :: locals) :=
        ⟨Counted.alloc hRetained.counted (hNew k rfl),
          hRetained.tabled.alloc_mapping hRetained.counted
            (hNew k rfl)⟩
      exact hAlloc.hold

/- A mapping is found to be for the file of its user data. -/
theorem forFile
    (hKept : s.Kept pageSize locals)
    (mapping size : Nat)
    (hMapping : s.object k = .mapping mapping size (some m))
    (hPages : s.object m = .fileMapping mapping size) :
    (s.forFile k (s.mapped m)).Kept pageSize locals where
  counted := ⟨hKept.counted.balanced, hKept.counted.graded⟩
  tabled := by
    refine ⟨hKept.tabled.descriptors, ?_, ?_,
      hKept.tabled.astray⟩
    · apply hKept.tabled.pages.congr
      · intro x page
        exact Iff.rfl
      · rintro x page ⟨_, _, _, hObject, _⟩
        have hNe : x ≠ k := by
          rintro rfl
          rw [hMapping] at hObject
          cases hObject
        simp [FileProcess.forFile, hNe]
    · intro x hLive hFile
      have hNe {y : KObjectRef} {a b : Nat}
          (hObject : s.object y = .fileMapping a b) :
          y ≠ k := by
        rintro rfl
        rw [hMapping] at hObject
        cases hObject
      by_cases hSame : x = k
      · subst hSame
        refine ⟨m, mapping, size, hMapping, hPages, ?_⟩
        simp [FileProcess.forFile, hNe hPages]
      · have hWas : s.ofFile x = true := by
          simpa [FileProcess.forFile, hSame] using hFile
        rcases hKept.tabled.views x hLive hWas with
          ⟨m', mapping', size', hView, hPages', hShown⟩
        refine ⟨m', mapping', size', hView, hPages', ?_⟩
        simp [FileProcess.forFile, hSame, hNe hPages',
          hShown]

/- The objects for pages that were mapped. -/
theorem wrapMapping
    {mapping size : Nat}
    {contents : MappedFile File}
    {fileMapping object : Option KObjectRef}
    (hKept : s.Kept pageSize [])
    (hFree :
      ∀ page, InPages pageSize mapping size page →
        s.pages page = none)
    (hFirst : s.New fileMapping)
    (hSecond : s.New object)
    (hDistinct : ∀ m ∈ fileMapping, m ∉ object) :
    (s.wrapMapping pageSize mapping size contents
      fileMapping object).2.Sound pageSize := by
  match fileMapping with
  | none => exact sound_abort s
  | some m =>
      have hCounted :
          (s.alloc m (.fileMapping mapping size)).Counted
            [m] :=
        Counted.alloc hKept.counted (hFirst m rfl)
      have hMapped :
          (s.mapPages pageSize m mapping size contents).Kept
            pageSize [m] :=
        ⟨⟨hCounted.balanced, hCounted.graded⟩,
          hKept.tabled.mapPages hKept.counted (hFirst m rfl)
            hFree⟩
      have hLive :
          m ∈ (s.mapPages pageSize m mapping size
            contents).live :=
        hMapped.counted.mem_of_local
      have hRoom :
          ((s.mapPages pageSize m mapping size
              contents).refCount m).toNat + 1 < 2 ^ 32 := by
        simp [FileProcess.mapPages, FileProcess.alloc]
      match object with
      | none => exact hMapped.startRelease.sound
      | some k =>
          have hNe : m ≠ k := by
            rintro rfl
            exact hDistinct m rfl rfl
          have hNewToo :
              (s.mapPages pageSize m mapping size
                contents).New (some k) := by
            rintro _ ⟨⟩ hIn
            exact
              hSecond k rfl
                (Finset.mem_of_mem_insert_of_ne hIn hNe.symm)
          have hMapping :
              ((s.mapPages pageSize m mapping size
                contents).mappingNew mapping size (some m)
                  (some k)).2.Kept pageSize [m] :=
            hMapped.mappingNew
              (by rintro _ ⟨⟩; exact hLive)
              (by rintro _ ⟨⟩; exact hRoom) hNewToo
          have hShown :=
            hMapping.forFile (k := k) (m := m) mapping size
              (by
                simp [FileProcess.mappingNew,
                  FileProcess.hold, FileProcess.alloc])
              (by
                simp [FileProcess.mappingNew,
                  FileProcess.hold, FileProcess.alloc,
                  FileProcess.retain, FileProcess.mapPages,
                  hNe])
          have hContents :
              ((s.mapPages pageSize m mapping size
                contents).mappingNew mapping size (some m)
                  (some k)).2.mapped m = contents := by
            simp [FileProcess.mappingNew, FileProcess.hold,
              FileProcess.alloc, FileProcess.retain,
              FileProcess.mapPages]
          rw [hContents] at hShown
          exact hShown.startRelease.sound

/- The pages that `mmap` answers with are not in use. -/
theorem free_of_mmap
    {size page p : Nat}
    (hPageSize : 0 < pageSize)
    (hMmap : s.MmapAnswers pageSize size (some page))
    (hIn : InPages pageSize (page * pageSize) size p) :
    s.pages p = none := by
  unfold InPages at hIn
  rw [Nat.mul_div_cancel page hPageSize] at hIn
  have hFree := hMmap.2 (p - page) (by omega)
  rw [Nat.add_sub_cancel' hIn.1] at hFree
  exact Option.isNone_iff_eq_none.mp hFree

/- `KFileHandleNewMapping` -/
theorem newMapping
    {size : Nat}
    {protections : KMapProtection}
    {answer : Option Nat}
    {fileMapping object : Option KObjectRef}
    (hPageSize : 0 < pageSize)
    (hKept : s.Kept pageSize [])
    (hLive : o ∈ s.live)
    (hMmap : s.MmapAnswers pageSize size answer)
    (hFirst : s.New fileMapping)
    (hSecond : s.New object)
    (hDistinct : ∀ m ∈ fileMapping, m ∉ object) :
    (s.newMapping pageSize o size protections answer
      fileMapping object).2.Sound pageSize := by
  unfold FileProcess.newMapping
  split
  · rename_i handle hObject
    rcases handle with ⟨number, _ | _⟩
    · have hSame :
          s.useNumber o number = s :=
        hKept.tabled.useNumber ⟨hLive, hObject⟩
      simp only [Bool.false_eq_true, if_false, hSame]
      split
      · apply hKept.wrapMapping _ hFirst hSecond hDistinct
        intro p hIn
        exact free_of_mmap hPageSize hMmap hIn
      · exact hKept.sound
    · exact hKept.sound
  · exact hKept.sound

end Kept

end FileProcess

end KDoth

------------------------------------------------------------
-- Releases
------------------------------------------------------------

namespace KDoth

namespace FileProcess

variable {File : Type} {pageSize : Nat}
variable {s : FileProcess File} {o : KObjectRef}

/- The state in which a release goes on. -/
def released
    (s : FileProcess File)
    (o : KObjectRef) : FileProcess File :=
  { s with
    releasing := s.releasing.erase o
    refCount :=
      Function.update s.refCount o (s.refCount o - 1) }

theorem Tabled.released
    (hTabled : s.Tabled pageSize)
    (o : KObjectRef) :
    (s.released o).Tabled pageSize :=
  ⟨hTabled.descriptors, hTabled.pages, hTabled.views,
    hTabled.astray⟩

theorem proceed_eq
    (answers : List CloseAnswer) :
    s.proceed pageSize o answers =
      if s.refCount o = 1 then
        ((s.released o).deInit pageSize o answers).free o
      else s.released o := by
  by_cases hLast : s.refCount o = 1
  · simp [proceed, FileProcess.released, hLast]
  · simp [proceed, FileProcess.released, hLast]

/- The counts once an object left with its last release. -/
theorem Counted.free_released
    (hCounted : s.Counted [])
    (hReleased : o ∈ s.releasing)
    (hLast : s.refCount o = 1)
    (t : FileProcess File)
    (hLive : t.live = s.live.erase o)
    (hOut :
      ∀ x,
        (t.object x).references = (s.object x).references)
    (hCounts : t.refCount = (s.released o).refCount)
    (hHeld : t.held = s.held)
    (hReleasing : t.releasing = s.releasing.erase o) :
    t.Counted ((s.object o).references ++ []) := by
  apply
    hCounted.free hReleased hLast hLive hOut _ hHeld
      hReleasing
  intro x hNe
  rw [hCounts]
  exact Function.update_of_ne hNe _ _

namespace Kept

/- The last release of a handle closes it. -/
theorem free_handle
    {handle : KFileHandle}
    {answer : CloseAnswer}
    (hKept : s.Kept pageSize [])
    (hReleased : o ∈ s.releasing)
    (hLast : s.refCount o = 1)
    (hObject : s.object o = .fileHandle handle) :
    (((s.released o).deInit pageSize o [answer]).free
      o).Sound pageSize := by
  have hLive : o ∈ s.live :=
    (hKept.counted.pending hReleased).mem_of_pending
  have hTabled := hKept.tabled.released o
  have hSame :
      (s.released o).object o = .fileHandle handle :=
    hObject
  have hReferences : (s.object o).references = [] := by
    rw [hObject]
    rfl
  rcases handle with ⟨number, _ | _⟩
  · cases answer with
    | success =>
        have hState :
            (s.released o).deInit pageSize o [.success] =
              ((s.released o).takeBack o number).setClosed o
                number true := by
          simp only [deInit, FileProcess.close, hSame]
          rfl
        have hClosed :=
          hTabled.closeHandle
            (show (s.released o).HoldsNumber o number from
              ⟨hLive, hObject⟩)
        have hCounted :=
          hKept.counted.free_released hReleased hLast
            ((((s.released o).takeBack o number).setClosed o
              number true).free o)
            rfl
            (by
              intro x
              by_cases hx : x = o
              · subst hx
                rw [hReferences]
                simp [FileProcess.free, setClosed,
                  FileObject.references]
              · simp [FileProcess.free, setClosed, takeBack,
                  useNumber, FileProcess.released, hx])
            rfl rfl rfl
        rw [hReferences] at hCounted
        have hFreed :=
          hClosed.free (o := o)
            (by
              rintro n ⟨_, hHandle⟩
              simp [setClosed] at hHandle)
            (by
              rintro p ⟨_, _, _, hPages, _⟩
              simp [setClosed] at hPages)
        rw [hState]
        exact fun _ => ⟨hCounted, hFreed⟩
    | _ =>
        intro hGoes
        simp only [deInit, FileProcess.close, hSame] at hGoes
        cases hGoes
  · have hState :
        (s.released o).deInit pageSize o [answer] =
          s.released o := by
      simp only [deInit, FileProcess.close, hSame]
      rfl
    have hCounted :=
      hKept.counted.free_released hReleased hLast
        ((s.released o).free o) rfl (fun _ => rfl) rfl rfl rfl
    rw [hReferences] at hCounted
    have hFreed :=
      hTabled.free (o := o)
        (by
          rintro n ⟨_, hHandle⟩
          rw [hSame] at hHandle
          cases hHandle)
        (by
          rintro p ⟨_, _, _, hPages, _⟩
          rw [hSame] at hPages
          cases hPages)
    rw [hState]
    exact fun _ => ⟨hCounted, hFreed⟩

/- The last release of a file mapping unmaps its pages. -/
theorem free_fileMapping
    {mapping size : Nat}
    {answers : List CloseAnswer}
    (hKept : s.Kept pageSize [])
    (hReleased : o ∈ s.releasing)
    (hLast : s.refCount o = 1)
    (hObject : s.object o = .fileMapping mapping size) :
    (((s.released o).deInit pageSize o answers).free
      o).Sound pageSize := by
  have hLive : o ∈ s.live :=
    (hKept.counted.pending hReleased).mem_of_pending
  have hSame :
      (s.released o).object o = .fileMapping mapping size :=
    hObject
  have hState :
      (s.released o).deInit pageSize o answers =
        (s.released o).unmapPages pageSize o mapping size := by
    simp only [deInit, hSame]
  have hCounted :=
    hKept.counted.free_released hReleased hLast
      (((s.released o).unmapPages pageSize o mapping
        size).free o)
      rfl (fun _ => rfl) rfl rfl rfl
  have hReferences : (s.object o).references = [] := by
    rw [hObject]
    rfl
  rw [hReferences] at hCounted
  rw [hState]
  exact fun _ =>
    ⟨hCounted, (hKept.tabled.released o).unmap hLive hSame⟩

/- The last release of a mapping releases its user data. -/
theorem free_mapping
    {mapping count : Nat}
    {userData : Option KObjectRef}
    {answers : List CloseAnswer}
    (hKept : s.Kept pageSize [])
    (hReleased : o ∈ s.releasing)
    (hLast : s.refCount o = 1)
    (hObject :
      s.object o = .mapping mapping count userData) :
    (((s.released o).deInit pageSize o answers).free
      o).Sound pageSize := by
  have hSame :
      (s.released o).object o =
        .mapping mapping count userData :=
    hObject
  have hCounted :=
    hKept.counted.free_released hReleased hLast
      ((s.released o).free o) rfl (fun _ => rfl) rfl rfl rfl
  have hFreed :
      ((s.released o).free o).Tabled pageSize :=
    (hKept.tabled.released o).free
      (by
        rintro n ⟨_, hHandle⟩
        rw [hSame] at hHandle
        cases hHandle)
      (by
        rintro p ⟨_, _, _, hPages, _⟩
        rw [hSame] at hPages
        cases hPages)
  rw [hObject] at hCounted
  cases userData with
  | none =>
      have hState :
          (s.released o).deInit pageSize o answers =
            s.released o := by
        simp only [deInit, hSame]
      rw [hState]
      exact fun _ => ⟨hCounted, hFreed⟩
  | some u =>
      have hState :
          (s.released o).deInit pageSize o answers =
            (s.released o).startRelease u := by
        simp only [deInit, hSame]
      have hKeptToo :
          ((s.released o).free o).Kept pageSize [u] :=
        ⟨hCounted, hFreed⟩
      rw [hState]
      exact hKeptToo.startRelease.sound

/- A call of `KObjectRelease` goes on. -/
theorem proceed
    {answer : CloseAnswer}
    (hKept : s.Kept pageSize [])
    (hReleased : o ∈ s.releasing) :
    (s.proceed pageSize o [answer]).Sound pageSize := by
  rw [proceed_eq]
  by_cases hLast : s.refCount o = 1
  · rw [if_pos hLast]
    cases hObject : s.object o with
    | fileHandle handle =>
        exact hKept.free_handle hReleased hLast hObject
    | fileMapping mapping size =>
        exact hKept.free_fileMapping hReleased hLast hObject
    | mapping mapping count userData =>
        exact hKept.free_mapping hReleased hLast hObject
  · rw [if_neg hLast]
    exact fun _ =>
      ⟨hKept.counted.drop hReleased hLast,
        hKept.tabled.released o⟩

end Kept

end FileProcess

end KDoth
