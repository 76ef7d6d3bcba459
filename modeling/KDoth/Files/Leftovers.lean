import KDoth.Files.FileSafety

/-
  Runs in which the system answers `close` as it likes, with
  errors and with interrupted calls. A number may then be
  taken back that is not the handle's any more, but no number
  and no page is left to an object that is gone.

  Key definitions include:
    * `FileProcess.Confined`
    * `FileProcess.Accounted`

  Key theorems include:
    * `FileProcess.closeNumber_eq`
    * `FileProcess.Accounted.proceed`
    * `FileProcess.accounted_of_reachable`
    * `FileProcess.no_resource_left`
-/

------------------------------------------------------------
-- Numbers And Pages
------------------------------------------------------------

namespace KDoth

namespace FileProcess

variable {File : Type} {pageSize : Nat}

/-
  A number belongs only to the handle that has it and was not
  closed, and a page only to its file mapping.
-/
structure Confined
    (pageSize : Nat)
    (s : FileProcess File) : Prop where
  descriptors : s.descriptors.Within s.HoldsNumber
  pages : s.pages.Within (s.HoldsPage pageSize)

variable {s : FileProcess File} {o k : KObjectRef}

/- What an object has stays when another one is made. -/
theorem HoldsNumber.alloc
    {object : FileObject}
    {number : Nat}
    (hNew : o ∉ s.live)
    (hHolds : s.HoldsNumber k number) :
    (s.alloc o object).HoldsNumber k number := by
  have hNe : k ≠ o := by
    rintro rfl
    exact hNew hHolds.1
  exact (holdsNumber_alloc_of_ne hNe).mpr hHolds

theorem HoldsPage.alloc
    {object : FileObject}
    {page : Nat}
    (hNew : o ∉ s.live)
    (hHolds : s.HoldsPage pageSize k page) :
    (s.alloc o object).HoldsPage pageSize k page := by
  have hNe : k ≠ o := by
    rintro rfl
    exact not_holdsPage hNew hHolds
  exact (holdsPage_alloc_of_ne hNe).mpr hHolds

/-
  The calls of `close` change only numbers: what they take
  back is nobody's, and an answer of 0 took back this one.
-/
theorem closeNumber_eq
    (s : FileProcess File)
    (o : KObjectRef)
    (number : Nat)
    (answers : List CloseAnswer) :
    ∃ descriptors astray,
      (s.closeNumber o number answers).2 =
        { s with
          descriptors := descriptors
          astray := astray } ∧
        (∀ i x, descriptors.BelongsTo i x →
          s.descriptors.BelongsTo i x) ∧
          ((s.closeNumber o number answers).1 = true →
            descriptors number = none) := by
  have hCleared (t : FileProcess File) :
      ∀ i x,
        (t.descriptors.clear (· = number)).BelongsTo i x →
          t.descriptors.BelongsTo i x := by
    intro i x hSlot
    by_cases hSame : i = number
    · simp [SlotTable.BelongsTo, SlotTable.clear, hSame]
        at hSlot
    · simpa [SlotTable.BelongsTo, SlotTable.clear, hSame]
        using hSlot
  induction answers generalizing s with
  | nil =>
      exact
        ⟨s.descriptors, s.astray, rfl, fun _ _ => id,
          fun hTaken => absurd hTaken Bool.false_ne_true⟩
  | cons answer answers ih =>
      cases answers with
      | nil =>
          exact ⟨_, _, rfl, hCleared s, fun _ => if_pos rfl⟩
      | cons next answers =>
          rcases ih (s.takeBack o number) with
            ⟨descriptors, astray, hState, hOld, hTaken⟩
          have hLoop :
              s.closeNumber o number
                  (answer :: next :: answers) =
                (s.takeBack o number).closeNumber o number
                  (next :: answers) := by
            rw [closeNumber]
            intro hNil
            cases hNil
          rw [hLoop]
          exact
            ⟨descriptors, astray, hState,
              fun i x hSlot =>
                hCleared s i x (hOld i x hSlot),
              hTaken⟩

/- `KFileHandleClose` changes the member `closed`. -/
theorem close_eq
    {handle : KFileHandle}
    (hObject : s.object o = .fileHandle handle)
    (answers : List CloseAnswer) :
    ∃ descriptors astray,
      (s.close o answers).2 =
        setClosed
          { s with
            descriptors := descriptors
            astray := astray }
          o handle.handle (s.close o answers).1 := by
  rcases handle with ⟨number, _ | _⟩
  · rcases closeNumber_eq s o number answers with
      ⟨descriptors, astray, hState, _⟩
    refine ⟨descriptors, astray, ?_⟩
    simp only [close, hObject, Bool.false_eq_true, if_false,
      hState]
  · have hSame :
        Function.update s.object o
            (.fileHandle ⟨number, true⟩) =
          s.object := by
      rw [← hObject]
      exact Function.update_eq_self o s.object
    refine ⟨s.descriptors, s.astray, ?_⟩
    simp only [close, hObject, if_true, setClosed, hSame]

namespace Confined

theorem alloc
    {object : FileObject}
    (hConfined : s.Confined pageSize)
    (hNew : o ∉ s.live) :
    (s.alloc o object).Confined pageSize where
  descriptors :=
    hConfined.descriptors.mono fun _ _ =>
      HoldsNumber.alloc hNew
  pages :=
    hConfined.pages.mono fun _ _ => HoldsPage.alloc hNew

theorem openHandle
    {number : Nat}
    {file : File}
    (hConfined : s.Confined pageSize)
    (hNew : o ∉ s.live) :
    (s.openHandle o number file).Confined pageSize where
  descriptors := by
    refine hConfined.descriptors.claim ?_ ?_
    · rintro _ rfl
      exact holdsNumber_alloc_self.mpr rfl
    · exact fun _ _ => HoldsNumber.alloc hNew
  pages := (hConfined.alloc hNew).pages

theorem mapPages
    {mapping size : Nat}
    {contents : MappedFile File}
    (hConfined : s.Confined pageSize)
    (hNew : o ∉ s.live) :
    (s.mapPages pageSize o mapping size contents).Confined
      pageSize where
  descriptors := (hConfined.alloc hNew).descriptors
  pages := by
    refine hConfined.pages.claim ?_ ?_
    · intro page hIn
      exact
        holdsPage_alloc_self.mpr ⟨mapping, size, rfl, hIn⟩
    · exact fun _ _ => HoldsPage.alloc hNew

/- A handle is closed once its number was taken back. -/
theorem setClosed
    {number : Nat}
    {closed : Bool}
    (hConfined : s.Confined pageSize)
    (hObject : s.object o = .fileHandle ⟨number, false⟩)
    (hTaken : closed = true → s.descriptors number = none) :
    (s.setClosed o number closed).Confined pageSize where
  descriptors := by
    intro x i hSlot
    rcases hConfined.descriptors x i hSlot with
      ⟨hLive, hHandle⟩
    by_cases hSame : x = o
    · subst hSame
      rw [hObject] at hHandle
      cases hHandle
      cases closed with
      | false => exact ⟨hLive, Function.update_self ..⟩
      | true =>
          have hOwner :
              ((s.descriptors number).bind Slot.owner) =
                some x := hSlot
          rw [hTaken rfl] at hOwner
          cases hOwner
    · exact
        ⟨hLive, (Function.update_of_ne hSame _ _).trans hHandle⟩
  pages := by
    refine hConfined.pages.mono ?_
    rintro x page ⟨mapping, size, hLive, hPages, hIn⟩
    have hNe : x ≠ o := by
      rintro rfl
      rw [hObject] at hPages
      cases hPages
    exact
      ⟨mapping, size, hLive,
        (Function.update_of_ne hNe _ _).trans hPages, hIn⟩

/- `KFileHandleClose`, whatever the answers are. -/
theorem close
    (hConfined : s.Confined pageSize)
    (o : KObjectRef)
    (answers : List CloseAnswer) :
    (s.close o answers).2.Confined pageSize := by
  unfold FileProcess.close
  split
  · rename_i handle hObject
    rcases handle with ⟨number, _ | _⟩
    · rcases closeNumber_eq s o number answers with
        ⟨descriptors, astray, hState, hOld, hTaken⟩
      have hLeft :
          (s.closeNumber o number answers).2.Confined
            pageSize := by
        rw [hState]
        exact
          ⟨fun x i hSlot =>
              hConfined.descriptors x i (hOld i x hSlot),
            hConfined.pages⟩
      refine hLeft.setClosed ?_ ?_
      · rw [hState]
        exact hObject
      · intro hClosed
        rw [hState]
        exact hTaken hClosed
    · exact hConfined
  · exact hConfined

/- An object that has nothing of the system leaves. -/
theorem free
    (hConfined : s.Confined pageSize)
    (hNumbers : ∀ i, ¬ s.descriptors.BelongsTo i o)
    (hPages : ∀ page, ¬ s.pages.BelongsTo page o) :
    (s.free o).Confined pageSize where
  descriptors := by
    intro x i hSlot
    have hNe : x ≠ o := by
      rintro rfl
      exact hNumbers i hSlot
    rcases hConfined.descriptors x i hSlot with
      ⟨hLive, hHandle⟩
    exact ⟨Finset.mem_erase_of_ne_of_mem hNe hLive, hHandle⟩
  pages := by
    intro x page hSlot
    have hNe : x ≠ o := by
      rintro rfl
      exact hPages page hSlot
    rcases hConfined.pages x page hSlot with
      ⟨mapping, size, hLive, hPages, hIn⟩
    exact
      ⟨mapping, size,
        Finset.mem_erase_of_ne_of_mem hNe hLive, hPages, hIn⟩

/- A handle that is closed has no number. -/
theorem no_number
    {number : Nat}
    (hConfined : s.Confined pageSize)
    (hObject : s.object o ≠ .fileHandle ⟨number, false⟩) :
    ¬ s.descriptors.BelongsTo number o :=
  fun hSlot => hObject (hConfined.descriptors o number hSlot).2

/- Only a file mapping has pages. -/
theorem no_page
    {page : Nat}
    (hConfined : s.Confined pageSize)
    (hObject :
      ∀ mapping size,
        s.object o ≠ .fileMapping mapping size) :
    ¬ s.pages.BelongsTo page o := by
  intro hSlot
  rcases hConfined.pages o page hSlot with
    ⟨mapping, size, _, hPages, _⟩
  exact hObject mapping size hPages

/- A file mapping leaves, and its pages are unmapped. -/
theorem unmap
    {mapping size : Nat}
    (hConfined : s.Confined pageSize)
    (hObject : s.object o = .fileMapping mapping size) :
    ((s.unmapPages pageSize o mapping size).free o).Confined
      pageSize := by
  have hUnmapped :
      (s.unmapPages pageSize o mapping size).Confined
        pageSize :=
    ⟨hConfined.descriptors,
      hConfined.pages.clear fun _ _ _ hHolds => hHolds⟩
  apply hUnmapped.free
  · intro i
    apply hConfined.no_number
    rw [hObject]
    nofun
  · intro page hSlot
    have hNot : ¬ InPages pageSize mapping size page := by
      intro hIn
      simp [unmapPages, SlotTable.BelongsTo,
        SlotTable.clear, hIn] at hSlot
    rcases hUnmapped.pages o page hSlot with
      ⟨mapping', size', _, hPages, hIn⟩
    have hSame :
        FileObject.fileMapping mapping size =
          .fileMapping mapping' size' :=
      hObject.symm.trans hPages
    cases hSame
    exact hNot hIn

end Confined

end FileProcess

end KDoth

------------------------------------------------------------
-- Calls
------------------------------------------------------------

namespace KDoth

namespace FileProcess

variable {File : Type} {pageSize : Nat}

/- Counts are right, and nobody has what is not theirs. -/
structure Accounted
    (pageSize : Nat)
    (s : FileProcess File)
    (locals : List KObjectRef) : Prop where
  counted : s.Counted locals
  confined : s.Confined pageSize

variable {s : FileProcess File}
variable {locals : List KObjectRef} {o k : KObjectRef}

/- `KFileHandleClose` changes no count. -/
theorem Counted.close
    (hCounted : s.Counted locals)
    (o : KObjectRef)
    (answers : List CloseAnswer) :
    (s.close o answers).2.Counted locals := by
  cases hObject : s.object o with
  | fileHandle handle =>
      rcases close_eq hObject answers with
        ⟨descriptors, astray, hState⟩
      have hGraph :=
        graph_setClosed (s := s) hObject handle.handle
          (s.close o answers).1
      rw [hState]
      constructor
      · show (s.setClosed o handle.handle _).graph.Balanced
          _ _ _
        rw [hGraph]
        exact hCounted.balanced
      · show (s.setClosed o handle.handle _).graph.Graded
        rw [hGraph]
        exact hCounted.graded
  | _ =>
      simp only [FileProcess.close, hObject]
      exact hCounted

namespace Accounted

theorem retain
    (hAccounted : s.Accounted pageSize locals)
    (hLive : o ∈ s.live)
    (hRoom : (s.refCount o).toNat + 1 < 2 ^ 32) :
    (s.retain o).Accounted pageSize (o :: locals) where
  counted := hAccounted.counted.retain hLive hRoom
  confined :=
    ⟨hAccounted.confined.descriptors,
      hAccounted.confined.pages⟩

theorem hold
    (hAccounted : s.Accounted pageSize (o :: locals)) :
    (s.hold o).Accounted pageSize locals where
  counted := hAccounted.counted.hold
  confined :=
    ⟨hAccounted.confined.descriptors,
      hAccounted.confined.pages⟩

theorem unhold
    (hAccounted : s.Accounted pageSize locals)
    (hHeld : 0 < s.held o) :
    (s.unhold o).Accounted pageSize (o :: locals) where
  counted := hAccounted.counted.unhold hHeld
  confined :=
    ⟨hAccounted.confined.descriptors,
      hAccounted.confined.pages⟩

theorem startRelease
    (hAccounted : s.Accounted pageSize (o :: locals)) :
    (s.startRelease o).Accounted pageSize locals where
  counted := hAccounted.counted.startRelease
  confined :=
    ⟨hAccounted.confined.descriptors,
      hAccounted.confined.pages⟩

/- The code passes a reference to a release. -/
theorem release
    (hAccounted : s.Accounted pageSize locals)
    (hHeld : 0 < s.held o) :
    ((s.unhold o).startRelease o).Accounted pageSize
      locals :=
  (hAccounted.unhold hHeld).startRelease

theorem alloc
    {object : FileObject}
    (hAccounted :
      s.Accounted pageSize (object.references ++ locals))
    (hNew : o ∉ s.live) :
    (s.alloc o object).Accounted pageSize (o :: locals) where
  counted := hAccounted.counted.alloc hNew
  confined := hAccounted.confined.alloc hNew

theorem close
    (hAccounted : s.Accounted pageSize locals)
    (o : KObjectRef)
    (answers : List CloseAnswer) :
    (s.close o answers).2.Accounted pageSize locals where
  counted := hAccounted.counted.close o answers
  confined := hAccounted.confined.close o answers

/- `KFileHandleNew` -/
theorem fileHandleNew
    {answer : Option (Nat × File)}
    {object : Option KObjectRef}
    (hAccounted : s.Accounted pageSize [])
    (hNew : s.New object)
    (hGoes : (s.fileHandleNew answer object).2.aborted = false) :
    (s.fileHandleNew answer object).2.Accounted pageSize
      [] := by
  match answer, object with
  | none, _ => exact hAccounted
  | some _, none => cases hGoes
  | some (number, file), some o =>
      have hAlloc :
          (s.alloc o (.fileHandle ⟨number, false⟩)).Accounted
            pageSize [o] :=
        alloc hAccounted (hNew o rfl)
      have hOpened :
          (s.openHandle o number file).Accounted pageSize
            [o] :=
        ⟨⟨hAlloc.counted.balanced, hAlloc.counted.graded⟩,
          hAccounted.confined.openHandle (hNew o rfl)⟩
      exact hOpened.hold

/- `KMappingNew` -/
theorem mappingNew
    {buffer count : Nat}
    {userData object : Option KObjectRef}
    (hAccounted : s.Accounted pageSize locals)
    (hLive : ∀ o ∈ userData, o ∈ s.live)
    (hRoom :
      ∀ o ∈ userData, (s.refCount o).toNat + 1 < 2 ^ 32)
    (hNew : s.New object) :
    (s.mappingNew buffer count userData object).2.Accounted
      pageSize locals := by
  match object, userData with
  | none, _ => exact hAccounted
  | some k, none =>
      have hAlloc :
          (s.alloc k (.mapping buffer count none)).Accounted
            pageSize (k :: locals) :=
        alloc hAccounted (hNew k rfl)
      exact hAlloc.hold
  | some k, some o =>
      have hRetained :=
        hAccounted.retain (hLive o rfl) (hRoom o rfl)
      have hAlloc :
          ((s.retain o).alloc k
              (.mapping buffer count (some o))).Accounted
            pageSize (k :: locals) :=
        alloc hRetained (hNew k rfl)
      exact hAlloc.hold

/- The objects for pages that were mapped. -/
theorem wrapMapping
    {mapping size : Nat}
    {contents : MappedFile File}
    {fileMapping object : Option KObjectRef}
    (hAccounted : s.Accounted pageSize [])
    (hFirst : s.New fileMapping)
    (hSecond : s.New object)
    (hDistinct : ∀ m ∈ fileMapping, m ∉ object)
    (hGoes :
      (s.wrapMapping pageSize mapping size contents
        fileMapping object).2.aborted = false) :
    (s.wrapMapping pageSize mapping size contents
      fileMapping object).2.Accounted pageSize [] := by
  match fileMapping with
  | none => cases hGoes
  | some m =>
      have hAlloc :
          (s.alloc m (.fileMapping mapping size)).Accounted
            pageSize [m] :=
        alloc hAccounted (hFirst m rfl)
      have hMapped :
          (s.mapPages pageSize m mapping size
            contents).Accounted pageSize [m] :=
        ⟨⟨hAlloc.counted.balanced, hAlloc.counted.graded⟩,
          hAccounted.confined.mapPages (hFirst m rfl)⟩
      match object with
      | none => exact hMapped.startRelease
      | some k =>
          have hLive :
              m ∈ (s.mapPages pageSize m mapping size
                contents).live :=
            hMapped.counted.mem_of_local
          have hRoom :
              ((s.mapPages pageSize m mapping size
                contents).refCount m).toNat + 1 <
                  2 ^ 32 := by
            simp [FileProcess.mapPages, FileProcess.alloc]
          have hNewToo :
              (s.mapPages pageSize m mapping size
                contents).New (some k) := by
            rintro _ ⟨⟩ hIn
            have hNe : k ≠ m := by
              rintro rfl
              exact hDistinct k rfl rfl
            exact
              hSecond k rfl
                (Finset.mem_of_mem_insert_of_ne hIn hNe)
          have hMapping :
              ((s.mapPages pageSize m mapping size
                contents).mappingNew mapping size (some m)
                  (some k)).2.Accounted pageSize [m] :=
            hMapped.mappingNew
              (by rintro _ ⟨⟩; exact hLive)
              (by rintro _ ⟨⟩; exact hRoom) hNewToo
          have hShown :
              (((s.mapPages pageSize m mapping size
                contents).mappingNew mapping size (some m)
                  (some k)).2.forFile k contents).Accounted
                    pageSize [m] :=
            ⟨⟨hMapping.counted.balanced,
                hMapping.counted.graded⟩,
              ⟨hMapping.confined.descriptors,
                hMapping.confined.pages⟩⟩
          exact hShown.startRelease

/- `KFileHandleNewMapping` -/
theorem newMapping
    {size : Nat}
    {protections : KMapProtection}
    {answer : Option Nat}
    {fileMapping object : Option KObjectRef}
    (hAccounted : s.Accounted pageSize [])
    (hFirst : s.New fileMapping)
    (hSecond : s.New object)
    (hDistinct : ∀ m ∈ fileMapping, m ∉ object)
    (hGoes :
      (s.newMapping pageSize o size protections answer
        fileMapping object).2.aborted = false) :
    (s.newMapping pageSize o size protections answer
      fileMapping object).2.Accounted pageSize [] := by
  unfold FileProcess.newMapping at hGoes ⊢
  split
  · rename_i handle hObject
    rcases handle with ⟨number, _ | _⟩
    · have hUsed :
          (s.useNumber o number).Accounted pageSize [] :=
        ⟨⟨hAccounted.counted.balanced,
            hAccounted.counted.graded⟩,
          ⟨hAccounted.confined.descriptors,
            hAccounted.confined.pages⟩⟩
      simp only [hObject, Bool.false_eq_true,
        if_false] at hGoes ⊢
      split
      · rename_i hSlot
        simp only [hSlot] at hGoes
        exact
          hUsed.wrapMapping hFirst hSecond hDistinct hGoes
      · exact hUsed
    · exact hAccounted
  · exact hAccounted

theorem released
    (hAccounted : s.Accounted pageSize locals)
    (o : KObjectRef) :
    (s.released o).Confined pageSize :=
  ⟨hAccounted.confined.descriptors,
    hAccounted.confined.pages⟩

/-
  The last release of a handle: the process aborts, or the
  handle is closed when it leaves.
-/
theorem free_handle
    {handle : KFileHandle}
    {answers : List CloseAnswer}
    (hAccounted : s.Accounted pageSize [])
    (hReleased : o ∈ s.releasing)
    (hLast : s.refCount o = 1)
    (hObject : s.object o = .fileHandle handle)
    (hGoes :
      (((s.released o).deInit pageSize o answers).free
        o).aborted = false) :
    (((s.released o).deInit pageSize o answers).free
      o).Accounted pageSize [] := by
  have hSame :
      (s.released o).object o = .fileHandle handle :=
    hObject
  have hConfined :=
    (hAccounted.released o).close o answers
  rcases close_eq hSame answers with
    ⟨descriptors, astray, hState⟩
  rcases hClose : (s.released o).close o answers with
    ⟨closed, t⟩
  simp only [deInit, hSame, hClose] at hGoes ⊢
  rw [hClose] at hConfined hState
  dsimp only at hState hConfined
  cases closed with
  | false => cases hGoes
  | true =>
      have hReferences (x : KObjectRef) :
          (t.object x).references =
            (s.object x).references := by
        rw [hState]
        by_cases hx : x = o
        · subst hx
          simp [FileProcess.setClosed, hObject,
            FileObject.references]
        · simp [FileProcess.setClosed,
            FileProcess.released, hx]
      have hCounted :=
        hAccounted.counted.free_released hReleased hLast
          (t.free o) (by rw [hState]; rfl) hReferences
          (by rw [hState]; rfl) (by rw [hState]; rfl)
          (by rw [hState]; rfl)
      rw [hObject] at hCounted
      have hClosed :
          t.object o = .fileHandle ⟨handle.handle, true⟩ := by
        rw [hState]
        exact Function.update_self ..
      refine ⟨hCounted, hConfined.free ?_ ?_⟩
      · intro i
        apply hConfined.no_number
        rw [hClosed]
        intro hOpen
        cases hOpen
      · intro page
        apply hConfined.no_page
        rw [hClosed]
        intro mapping size hMapping
        cases hMapping

/- The last release of a file mapping unmaps its pages. -/
theorem free_fileMapping
    {mapping size : Nat}
    {answers : List CloseAnswer}
    (hAccounted : s.Accounted pageSize [])
    (hReleased : o ∈ s.releasing)
    (hLast : s.refCount o = 1)
    (hObject : s.object o = .fileMapping mapping size) :
    (((s.released o).deInit pageSize o answers).free
      o).Accounted pageSize [] := by
  have hSame :
      (s.released o).object o = .fileMapping mapping size :=
    hObject
  have hCounted :=
    hAccounted.counted.free_released hReleased hLast
      (((s.released o).unmapPages pageSize o mapping
        size).free o)
      rfl (fun _ => rfl) rfl rfl rfl
  rw [hObject] at hCounted
  simp only [deInit, hSame]
  exact ⟨hCounted, (hAccounted.released o).unmap hSame⟩

/- The last release of a mapping releases its user data. -/
theorem free_mapping
    {mapping count : Nat}
    {userData : Option KObjectRef}
    {answers : List CloseAnswer}
    (hAccounted : s.Accounted pageSize [])
    (hReleased : o ∈ s.releasing)
    (hLast : s.refCount o = 1)
    (hObject :
      s.object o = .mapping mapping count userData) :
    (((s.released o).deInit pageSize o answers).free
      o).Accounted pageSize [] := by
  have hSame :
      (s.released o).object o =
        .mapping mapping count userData :=
    hObject
  have hConfined := hAccounted.released o
  have hFreed : ((s.released o).free o).Confined pageSize := by
    apply hConfined.free
    · intro i
      apply hConfined.no_number
      rw [hSame]
      nofun
    · intro page
      apply hConfined.no_page
      rw [hSame]
      nofun
  have hCounted :=
    hAccounted.counted.free_released hReleased hLast
      ((s.released o).free o) rfl (fun _ => rfl) rfl rfl rfl
  rw [hObject] at hCounted
  have hLeft :
      ((s.released o).free o).Accounted pageSize
        (userData.toList ++ []) :=
    ⟨hCounted, hFreed⟩
  simp only [deInit, hSame]
  cases userData with
  | none => exact hLeft
  | some u => exact hLeft.startRelease

/- A call of `KObjectRelease` goes on. -/
theorem proceed
    (hAccounted : s.Accounted pageSize [])
    (hReleased : o ∈ s.releasing)
    (answers : List CloseAnswer)
    (hGoes :
      (s.proceed pageSize o answers).aborted = false) :
    (s.proceed pageSize o answers).Accounted pageSize
      [] := by
  rw [proceed_eq] at hGoes ⊢
  by_cases hLast : s.refCount o = 1
  · rw [if_pos hLast] at hGoes ⊢
    cases hObject : s.object o with
    | fileHandle handle =>
        exact
          hAccounted.free_handle hReleased hLast hObject
            hGoes
    | fileMapping mapping size =>
        exact
          hAccounted.free_fileMapping hReleased hLast hObject
    | mapping mapping count userData =>
        exact hAccounted.free_mapping hReleased hLast hObject
  · rw [if_neg hLast]
    exact
      ⟨hAccounted.counted.drop hReleased hLast,
        hAccounted.released o⟩

end Accounted

end FileProcess

end KDoth

------------------------------------------------------------
-- Runs
------------------------------------------------------------

namespace KDoth

namespace FileProcess

variable {File : Type} {pageSize : Nat}
variable {s s' : FileProcess File} {l : FileStep File}

/- What a step keeps in a process that it does not abort. -/
theorem Accounted.next
    (hAccounted : s.Accounted pageSize [])
    (hRoomy : s.Roomy)
    (hStep :
      (fileProcess pageSize File).step s l = some s')
    (hGoes : s'.aborted = false) :
    s'.Accounted pageSize [] := by
  rcases step_eq hStep with ⟨_, hEnabled, rfl⟩
  have hHeldLive {o : KObjectRef} (hHeld : 0 < s.held o) :
      o ∈ s.live :=
    hAccounted.counted.mem_of_held hHeld
  cases l with
  | fileHandleNew answer object =>
      exact hAccounted.fileHandleNew hEnabled.1 hGoes
  | close o answers => exact hAccounted.close o answers
  | getSize o sizeOut fstat =>
      show (s.getSize o sizeOut fstat).2.Accounted pageSize []
      unfold getSize
      split
      · split
        · exact hAccounted
        · exact
            ⟨⟨hAccounted.counted.balanced,
                hAccounted.counted.graded⟩,
              ⟨hAccounted.confined.descriptors,
                hAccounted.confined.pages⟩⟩
      · exact hAccounted
  | newMapping o size protections answer fileMapping object =>
      rcases hEnabled with
        ⟨_, _, _, hFirst, hSecond, hDistinct⟩
      exact
        hAccounted.newMapping hFirst hSecond hDistinct hGoes
  | mappingNew buffer count userData object =>
      refine hAccounted.mappingNew ?_ ?_ hEnabled.1
      · intro o hUser
        exact hHeldLive (hEnabled.2 o hUser)
      · intro o hUser
        exact hRoomy o (hHeldLive (hEnabled.2 o hUser))
  | retain o =>
      have hLive := hHeldLive hEnabled
      exact (hAccounted.retain hLive (hRoomy o hLive)).hold
  | retainUserData k =>
      show (s.retainUserData k).Accounted pageSize []
      unfold retainUserData
      split
      · exact hAccounted
      · rename_i o hUser
        have hLive : o ∈ s.live :=
          hAccounted.counted.mem_of_edge
            (hHeldLive hEnabled.1)
            (mem_references_of_userData hUser)
        exact
          (hAccounted.retain hLive (hRoomy o hLive)).hold
  | release o => exact hAccounted.release hEnabled
  | proceed o answers =>
      exact hAccounted.proceed hEnabled.1 answers hGoes
  | otherOpens number file =>
      exact
        ⟨⟨hAccounted.counted.balanced,
            hAccounted.counted.graded⟩,
          ⟨hAccounted.confined.descriptors.claim_other,
            hAccounted.confined.pages⟩⟩
  | otherCloses number =>
      exact
        ⟨⟨hAccounted.counted.balanced,
            hAccounted.counted.graded⟩,
          ⟨hAccounted.confined.descriptors.clear
              fun _ _ _ hHolds => hHolds,
            hAccounted.confined.pages⟩⟩
  | otherMaps page contents =>
      exact
        ⟨⟨hAccounted.counted.balanced,
            hAccounted.counted.graded⟩,
          ⟨hAccounted.confined.descriptors,
            hAccounted.confined.pages.claim_other⟩⟩
  | otherUnmaps page =>
      exact
        ⟨⟨hAccounted.counted.balanced,
            hAccounted.counted.graded⟩,
          ⟨hAccounted.confined.descriptors,
            hAccounted.confined.pages.clear
              fun _ _ _ hHolds => hHolds⟩⟩

/- No condition is on what the system answers. -/
theorem accounted_of_reachable
    (hReach :
      (fileProcess pageSize File).ReachableWhere
        (fun s _ => s.Roomy) s)
    (hGoes : s.aborted = false) :
    s.Accounted pageSize [] := by
  induction hReach with
  | init hInit =>
      rcases hInit with ⟨file, rfl⟩
      have hKept : (start file).Kept pageSize [] :=
        kept_start file
      exact
        ⟨hKept.counted,
          ⟨hKept.tabled.descriptors.only,
            hKept.tabled.pages.only⟩⟩
  | step hReach hRoomy hStep ih =>
      rcases step_eq hStep with ⟨hWent, _, _⟩
      exact (ih hWent).next hRoomy hStep hGoes

/-
  Once the code has given up all its references and the
  releases are over, no object is left, and the system has no
  number and no page of theirs, whatever it answered.
-/
theorem no_resource_left
    (hReach :
      (fileProcess pageSize File).ReachableWhere
        (fun s _ => s.Roomy) s)
    (hGoes : s.aborted = false)
    (hHeld : ∀ o ∈ s.live, s.held o = 0)
    (hReleased : s.releasing = []) :
    s.live = ∅ ∧
      (∀ number o, ¬ s.descriptors.BelongsTo number o) ∧
        ∀ page o, ¬ s.pages.BelongsTo page o := by
  have hAccounted := accounted_of_reachable hReach hGoes
  have hNone : s.live = ∅ := by
    rcases hAccounted.counted.graded with ⟨rank, hDown⟩
    have hBalanced := hAccounted.counted.balanced
    have hNobody : ∀ o, s.held o = 0 := by
      intro o
      by_cases hLive : o ∈ s.live
      · exact hHeld o hLive
      · have hDead := hBalanced.closed o hLive
        omega
    rw [hReleased] at hBalanced
    exact hBalanced.nodes_eq_empty hNobody rank hDown
  refine ⟨hNone, ?_, ?_⟩
  · intro number o hBelongs
    have hHolds :=
      hAccounted.confined.descriptors o number hBelongs
    rw [HoldsNumber, hNone] at hHolds
    cases hHolds.1
  · intro page o hBelongs
    rcases hAccounted.confined.pages o page hBelongs with
      ⟨_, _, hLive, _⟩
    rw [hNone] at hLive
    cases hLive

/-
  The calls of the example: a close is answered with an error
  and the number is other code's when the handle is closed
  again, and a mapping is given up after its handle.
-/
def closedTwice : List (FileStep Nat) :=
  [.fileHandleNew (some (3, 7)) (some ⟨1⟩),
    .newMapping ⟨1⟩ 5000 readWrite (some 16) (some ⟨2⟩)
      (some ⟨3⟩),
    .close ⟨1⟩ [.failed], .otherOpens 3 9,
    .close ⟨1⟩ [.success], .release ⟨1⟩,
    .proceed ⟨1⟩ [.success], .release ⟨3⟩,
    .proceed ⟨2⟩ [.success], .proceed ⟨3⟩ [.success],
    .proceed ⟨2⟩ [.success]]

theorem no_resource_left_after_close :
    ∃ t : FileProcess Nat,
      t.astray = true ∧
        t.live = ∅ ∧
          (∀ number o, ¬ t.descriptors.BelongsTo number o) ∧
            ∀ page o, ¬ t.pages.BelongsTo page o := by
  have hExec :
      (fileProcess 4096 Nat).exec (start 0) closedTwice =
        some _ := rfl
  have hMeets :
      (fileProcess 4096 Nat).ExecMeets (fun t _ => t.Roomy)
        (start 0) closedTwice := by
    decide
  have hStart :
      (fileProcess 4096 Nat).ReachableWhere
        (fun t _ => t.Roomy) (start 0) :=
    .init ⟨0, rfl⟩
  have hReach :=
    TransitionSystem.reachableWhere_of_exec hStart hMeets
      hExec
  exact
    ⟨_, rfl, no_resource_left hReach rfl (by decide) rfl⟩

end FileProcess

end KDoth
