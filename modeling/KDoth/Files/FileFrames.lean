import KDoth.Files.FileResources

/-
  What a step of `FileProcess` leaves alone: what the objects
  are that stay live, and the numbers and pages of other
  code.

  Key definitions include:
    * `FileProcess.SameObject`
    * `FileStep.Orderly`
    * `FileStep.Ours`
    * `FileProcess.Spares`

  Key theorems include:
    * `FileProcess.SameObject.next`
    * `FileProcess.Spares.next`
-/

------------------------------------------------------------
-- Objects Stay What They Are
------------------------------------------------------------

namespace KDoth

namespace FileProcess

variable {File : Type} {pageSize : Nat}

/- The object is the same, but for a handle that is closed. -/
structure SameObject
    (s t : FileProcess File)
    (k : KObjectRef) : Prop where
  object :
    t.object k = s.object k ∨
      ∃ number before after,
        s.object k = .fileHandle ⟨number, before⟩ ∧
          t.object k = .fileHandle ⟨number, after⟩
  opened : t.opened k = s.opened k
  mapped : t.mapped k = s.mapped k
  ofFile : t.ofFile k = s.ofFile k

variable {s t u : FileProcess File} {l : FileStep File}
variable {o k : KObjectRef}

namespace SameObject

theorem refl (s : FileProcess File) (k : KObjectRef) :
    SameObject s s k :=
  ⟨.inl rfl, rfl, rfl, rfl⟩

theorem trans
    (hFirst : SameObject s t k)
    (hNext : SameObject t u k) :
    SameObject s u k where
  object := by
    rcases hFirst.object with
      hSame | ⟨number, before, middle, hOld, hMid⟩
    · rcases hNext.object with
        hAgain | ⟨number, middle, after, hMid, hNew⟩
      · exact .inl (hAgain.trans hSame)
      · rw [hSame] at hMid
        exact .inr ⟨number, middle, after, hMid, hNew⟩
    · rcases hNext.object with
        hAgain | ⟨number', middle', after, hMid', hNew⟩
      · rw [hMid] at hAgain
        exact .inr ⟨number, before, middle, hOld, hAgain⟩
      · rw [hMid] at hMid'
        cases hMid'
        exact .inr ⟨number, before, after, hOld, hNew⟩
  opened := hNext.opened.trans hFirst.opened
  mapped := hNext.mapped.trans hFirst.mapped
  ofFile := hNext.ofFile.trans hFirst.ofFile

/- A new object is another one. -/
theorem alloc
    (s : FileProcess File)
    (object : FileObject)
    (hNe : k ≠ o) :
    SameObject s (s.alloc o object) k where
  object := .inl (Function.update_of_ne hNe _ _)
  opened := rfl
  mapped := rfl
  ofFile := Function.update_of_ne hNe _ _

theorem setClosed
    {number : Nat}
    {after : Bool}
    (hObject :
      ∃ before, s.object o = .fileHandle ⟨number, before⟩) :
    SameObject s (s.setClosed o number after) k where
  object := by
    by_cases hSame : k = o
    · subst hSame
      rcases hObject with ⟨before, hObject⟩
      exact
        .inr
          ⟨number, before, after, hObject,
            Function.update_self ..⟩
    · exact .inl (Function.update_of_ne hSame _ _)
  opened := rfl
  mapped := rfl
  ofFile := rfl

/- The calls of `close` do not change objects. -/
theorem closeNumber
    (s : FileProcess File)
    (k o : KObjectRef)
    (number : Nat)
    (answers : List CloseAnswer) :
    SameObject s (s.closeNumber o number answers).2 k ∧
      (s.closeNumber o number answers).2.object =
        s.object := by
  induction answers generalizing s with
  | nil => exact ⟨refl s k, rfl⟩
  | cons answer answers ih =>
      cases answers with
      | nil => exact ⟨⟨.inl rfl, rfl, rfl, rfl⟩, rfl⟩
      | cons next answers =>
          rcases ih (s.takeBack o number) with ⟨hSame, hAll⟩
          have hBack :
              SameObject s (s.takeBack o number) k :=
            ⟨.inl rfl, rfl, rfl, rfl⟩
          rw [FileProcess.closeNumber]
          · exact ⟨hBack.trans hSame, hAll⟩
          · nofun

theorem close
    (s : FileProcess File)
    (k o : KObjectRef)
    (answers : List CloseAnswer) :
    SameObject s (s.close o answers).2 k := by
  unfold FileProcess.close
  split
  · rename_i handle hObject
    rcases handle with ⟨number, _ | _⟩
    · rcases closeNumber s k o number answers with
        ⟨hSame, hAll⟩
      refine hSame.trans (setClosed ?_)
      rw [hAll]
      exact ⟨false, hObject⟩
    · exact refl s k
  · exact refl s k

theorem deInit
    (s : FileProcess File)
    (k o : KObjectRef)
    (answers : List CloseAnswer) :
    SameObject s (s.deInit pageSize o answers) k := by
  unfold FileProcess.deInit
  split
  · have hClose := close s k o answers
    cases hAnswer : s.close o answers with
    | mk closed t =>
        rw [hAnswer] at hClose
        cases closed with
        | true => exact hClose
        | false =>
            exact
              ⟨hClose.object, hClose.opened, hClose.mapped,
                hClose.ofFile⟩
  · exact ⟨.inl rfl, rfl, rfl, rfl⟩
  · exact refl s k
  · exact ⟨.inl rfl, rfl, rfl, rfl⟩

theorem mappingNew
    (s : FileProcess File)
    (buffer count : Nat)
    (userData : Option KObjectRef)
    {object : Option KObjectRef}
    (hNew : k ∉ object) :
    SameObject s
      (s.mappingNew buffer count userData object).2 k := by
  match object, userData with
  | none, _ => exact refl s k
  | some x, none =>
      have hNe : k ≠ x := by
        rintro rfl
        exact hNew rfl
      exact
        (alloc s _ hNe).trans ⟨.inl rfl, rfl, rfl, rfl⟩
  | some x, some y =>
      have hNe : k ≠ x := by
        rintro rfl
        exact hNew rfl
      have hRetained : SameObject s (s.retain y) k :=
        ⟨.inl rfl, rfl, rfl, rfl⟩
      exact
        (hRetained.trans (alloc _ _ hNe)).trans
          ⟨.inl rfl, rfl, rfl, rfl⟩

theorem wrapMapping
    (s : FileProcess File)
    (mapping size : Nat)
    (contents : MappedFile File)
    {fileMapping object : Option KObjectRef}
    (hFirst : k ∉ fileMapping)
    (hSecond : k ∉ object) :
    SameObject s
      (s.wrapMapping pageSize mapping size contents
        fileMapping object).2 k := by
  match fileMapping, object with
  | none, _ => exact ⟨.inl rfl, rfl, rfl, rfl⟩
  | some m, object =>
      have hNe : k ≠ m := by
        rintro rfl
        exact hFirst rfl
      have hAlloc :=
        alloc s (.fileMapping mapping size) hNe
      have hMapped :
          SameObject s
            (s.mapPages pageSize m mapping size contents)
            k :=
        ⟨hAlloc.object, rfl, Function.update_of_ne hNe _ _,
          hAlloc.ofFile⟩
      have hMapping :=
        mappingNew
          (s.mapPages pageSize m mapping size contents)
          mapping size (some m) hSecond
      have hBoth := hMapped.trans hMapping
      match object with
      | none =>
          exact hBoth.trans ⟨.inl rfl, rfl, rfl, rfl⟩
      | some x =>
          have hNeToo : k ≠ x := by
            rintro rfl
            exact hSecond rfl
          exact
            hBoth.trans
              ⟨.inl rfl, rfl, Function.update_of_ne hNeToo _ _,
                Function.update_of_ne hNeToo _ _⟩

theorem newMapping
    (s : FileProcess File)
    (o : KObjectRef)
    (size : Nat)
    (protections : KMapProtection)
    (answer : Option Nat)
    {fileMapping object : Option KObjectRef}
    (hFirst : k ∉ fileMapping)
    (hSecond : k ∉ object) :
    SameObject s
      (s.newMapping pageSize o size protections answer
        fileMapping object).2 k := by
  unfold FileProcess.newMapping
  split
  · split
    · exact refl s k
    · rename_i handle _ _
      have hUsed :
          SameObject s (s.useNumber o handle.handle) k :=
        ⟨.inl rfl, rfl, rfl, rfl⟩
      dsimp only
      split
      · exact
          hUsed.trans (wrapMapping _ _ _ _ hFirst hSecond)
      · exact hUsed
  · exact refl s k

/- No step makes an object that is live another one. -/
theorem next
    (hLive : k ∈ s.live)
    (hEnabled : s.Enabled pageSize l) :
    SameObject s (s.next pageSize l) k := by
  have hOld
      {object : Option KObjectRef}
      (hNew : s.New object) : k ∉ object :=
    fun hMem => hNew k hMem hLive
  cases l with
  | fileHandleNew answer object =>
      match answer, object with
      | none, _ => exact refl s k
      | some _, none => exact ⟨.inl rfl, rfl, rfl, rfl⟩
      | some (number, file), some x =>
          have hNe : k ≠ x := by
            rintro rfl
            exact hEnabled.1 k rfl hLive
          have hAlloc :=
            alloc s (.fileHandle ⟨number, false⟩) hNe
          exact
            ⟨hAlloc.object, Function.update_of_ne hNe _ _, rfl,
              hAlloc.ofFile⟩
  | close o answers => exact close s k o answers
  | getSize o sizeOut fstat =>
      show SameObject s (s.getSize o sizeOut fstat).2 k
      unfold FileProcess.getSize
      split
      · split
        · exact refl s k
        · exact ⟨.inl rfl, rfl, rfl, rfl⟩
      · exact refl s k
  | newMapping o size protections answer fileMapping object =>
      rcases hEnabled with ⟨_, _, _, hFirst, hSecond, _⟩
      exact
        newMapping s o size protections answer (hOld hFirst)
          (hOld hSecond)
  | mappingNew buffer count userData object =>
      exact
        mappingNew s buffer count userData (hOld hEnabled.1)
  | retainUserData x =>
      show SameObject s (s.retainUserData x) k
      unfold FileProcess.retainUserData
      split
      · exact refl s k
      · exact ⟨.inl rfl, rfl, rfl, rfl⟩
  | proceed o answers =>
      show SameObject s (s.proceed pageSize o answers) k
      have hReleased : SameObject s (s.released o) k :=
        ⟨.inl rfl, rfl, rfl, rfl⟩
      rw [proceed_eq]
      by_cases hLast : s.refCount o = 1
      · rw [if_pos hLast]
        exact
          (hReleased.trans (deInit _ k o answers)).trans
            ⟨.inl rfl, rfl, rfl, rfl⟩
      · rw [if_neg hLast]
        exact hReleased
  | _ => exact ⟨.inl rfl, rfl, rfl, rfl⟩

end SameObject

end FileProcess

end KDoth

------------------------------------------------------------
-- Files And Pages Of Others
------------------------------------------------------------

namespace KDoth

namespace FileProcess

variable {File : Type} {pageSize : Nat}

/- The numbers and pages of other code are as before. -/
structure Spares (s t : FileProcess File) : Prop where
  descriptors :
    ∀ number file,
      s.descriptors number = some ⟨none, file⟩ →
        t.descriptors number = some ⟨none, file⟩
  pages :
    ∀ page contents,
      s.pages page = some ⟨none, contents⟩ →
        t.pages page = some ⟨none, contents⟩

variable {s t u : FileProcess File} {l : FileStep File}
variable {o k : KObjectRef}

namespace Spares

/- Tables that were not changed. -/
theorem of_eq
    (hDescriptors : t.descriptors = s.descriptors)
    (hPages : t.pages = s.pages) :
    Spares s t where
  descriptors := by
    intro number file hSlot
    rw [hDescriptors]
    exact hSlot
  pages := by
    intro page contents hSlot
    rw [hPages]
    exact hSlot

theorem refl (s : FileProcess File) : Spares s s :=
  of_eq rfl rfl

theorem trans
    (hFirst : Spares s t)
    (hNext : Spares t u) :
    Spares s u where
  descriptors := fun number file hSlot =>
    hNext.descriptors number file
      (hFirst.descriptors number file hSlot)
  pages := fun page contents hSlot =>
    hNext.pages page contents
      (hFirst.pages page contents hSlot)

/- A number that is not in use is given out. -/
theorem openHandle
    {number : Nat}
    (file : File)
    (hFree : s.descriptors number = none) :
    Spares s (s.openHandle o number file) where
  descriptors := by
    intro i file' hSlot
    have hNe : i ≠ number := by
      rintro rfl
      rw [hFree] at hSlot
      cases hSlot
    exact (if_neg hNe).trans hSlot
  pages := fun _ _ hSlot => hSlot

/- A number of a handle is taken back. -/
theorem takeBack
    {number : Nat}
    (hTabled : s.Tabled pageSize)
    (hHolds : s.HoldsNumber o number) :
    Spares s (s.takeBack o number) where
  descriptors := by
    intro i file hSlot
    have hNe : i ≠ number := by
      rintro rfl
      rw [hTabled.descriptors.held o i hHolds] at hSlot
      cases hSlot
    exact (if_neg hNe).trans hSlot
  pages := fun _ _ hSlot => hSlot

/- A handle is closed with one call to the system. -/
theorem close
    (answer : CloseAnswer)
    (hTabled : s.Tabled pageSize)
    (hLive : o ∈ s.live) :
    Spares s (s.close o [answer]).2 := by
  unfold FileProcess.close
  split
  · rename_i handle hObject
    rcases handle with ⟨number, _ | _⟩
    · have hBack := takeBack hTabled ⟨hLive, hObject⟩
      exact hBack.trans (of_eq rfl rfl)
    · exact refl s
  · exact refl s

/- Pages of a file mapping are unmapped. -/
theorem unmapPages
    {mapping size : Nat}
    (hTabled : s.Tabled pageSize)
    (hLive : o ∈ s.live)
    (hObject : s.object o = .fileMapping mapping size) :
    Spares s (s.unmapPages pageSize o mapping size) where
  descriptors := fun _ _ hSlot => hSlot
  pages := by
    intro page contents hSlot
    have hNot : ¬ InPages pageSize mapping size page := by
      intro hIn
      have hOwn :=
        hTabled.pages.held o page
          ⟨mapping, size, hLive, hObject, hIn⟩
      rw [hOwn] at hSlot
      cases hSlot
    exact (if_neg hNot).trans hSlot

theorem deInit
    (answer : CloseAnswer)
    (hTabled : s.Tabled pageSize)
    (hLive : o ∈ s.live) :
    Spares s (s.deInit pageSize o [answer]) := by
  unfold FileProcess.deInit
  split
  · have hClose := close answer hTabled hLive
    cases hAnswer : s.close o [answer] with
    | mk closed t =>
        rw [hAnswer] at hClose
        cases closed with
        | true => exact hClose
        | false => exact hClose.trans (of_eq rfl rfl)
  · rename_i hObject
    exact unmapPages hTabled hLive hObject
  · exact refl s
  · exact of_eq rfl rfl

theorem mappingNew
    (s : FileProcess File)
    (buffer count : Nat)
    (userData object : Option KObjectRef) :
    Spares s
      (s.mappingNew buffer count userData object).2 := by
  match object, userData with
  | none, _ => exact refl s
  | some _, none => exact of_eq rfl rfl
  | some _, some _ => exact of_eq rfl rfl

/- Pages that are not in use are mapped. -/
theorem wrapMapping
    {mapping size : Nat}
    {contents : MappedFile File}
    {fileMapping object : Option KObjectRef}
    (hFree :
      ∀ page, InPages pageSize mapping size page →
        s.pages page = none) :
    Spares s
      (s.wrapMapping pageSize mapping size contents
        fileMapping object).2 := by
  match fileMapping with
  | none => exact of_eq rfl rfl
  | some m =>
      have hMapped :
          Spares s
            (s.mapPages pageSize m mapping size contents) :=
        { descriptors := fun _ _ hSlot => hSlot
          pages := by
            intro page contents' hSlot
            have hNot :
                ¬ InPages pageSize mapping size page := by
              intro hIn
              rw [hFree page hIn] at hSlot
              cases hSlot
            exact (if_neg hNot).trans hSlot }
      have hMapping :=
        mappingNew
          (s.mapPages pageSize m mapping size contents)
          mapping size (some m) object
      have hBoth := hMapped.trans hMapping
      match object with
      | none => exact hBoth.trans (of_eq rfl rfl)
      | some _ => exact hBoth.trans (of_eq rfl rfl)

theorem newMapping
    {size : Nat}
    {protections : KMapProtection}
    {answer : Option Nat}
    {fileMapping object : Option KObjectRef}
    (hPageSize : 0 < pageSize)
    (hMmap : s.MmapAnswers pageSize size answer) :
    Spares s
      (s.newMapping pageSize o size protections answer
        fileMapping object).2 := by
  unfold FileProcess.newMapping
  split
  · split
    · exact refl s
    · rename_i handle _ _
      dsimp only
      split
      · have hUsed :
            Spares s (s.useNumber o handle.handle) :=
          of_eq rfl rfl
        exact
          hUsed.trans
            (wrapMapping fun p hIn =>
              Kept.free_of_mmap hPageSize hMmap hIn)
      · exact of_eq rfl rfl
  · exact refl s

/- A step of the library changes nothing of other code. -/
theorem next
    (hPageSize : 0 < pageSize)
    (hKept : s.Kept pageSize [])
    (hEnabled : s.Enabled pageSize l)
    (hOrderly : l.Orderly)
    (hOurs : l.Ours) :
    Spares s (s.next pageSize l) := by
  cases l with
  | fileHandleNew answer object =>
      match answer, object with
      | none, _ => exact refl s
      | some _, none => exact of_eq rfl rfl
      | some (number, file), some x =>
          have hFree : s.descriptors number = none :=
            Option.isNone_iff_eq_none.mp
              (hEnabled.2 (number, file) rfl)
          have hOpened :=
            openHandle (o := x) file hFree
          exact hOpened.trans (of_eq rfl rfl)
  | close o answers =>
      have hOne : answers = [.success] := hOrderly
      subst hOne
      exact
        close .success hKept.tabled
          (hKept.counted.mem_of_held hEnabled.1)
  | getSize o sizeOut fstat =>
      show Spares s (s.getSize o sizeOut fstat).2
      rw [hKept.getSize
        (hKept.counted.mem_of_held hEnabled.1)]
      exact refl s
  | newMapping o size protections answer fileMapping object =>
      exact newMapping hPageSize hEnabled.2.2.1
  | mappingNew buffer count userData object =>
      exact mappingNew s buffer count userData object
  | retain o => exact of_eq rfl rfl
  | retainUserData x =>
      show Spares s (s.retainUserData x)
      unfold FileProcess.retainUserData
      split
      · exact refl s
      · exact of_eq rfl rfl
  | release o => exact of_eq rfl rfl
  | proceed o answers =>
      rcases List.length_eq_one_iff.mp hOrderly with ⟨a, rfl⟩
      show Spares s (s.proceed pageSize o [a])
      rw [proceed_eq]
      by_cases hLast : s.refCount o = 1
      · rw [if_pos hLast]
        have hLive : o ∈ s.live :=
          (hKept.counted.pending hEnabled.1).mem_of_pending
        have hReleased : Spares s (s.released o) :=
          of_eq rfl rfl
        have hEnds :=
          deInit a (hKept.tabled.released o) hLive
        exact
          (hReleased.trans hEnds).trans (of_eq rfl rfl)
      · rw [if_neg hLast]
        exact of_eq rfl rfl
  | otherOpens number file => exact hOurs.elim
  | otherCloses number => exact hOurs.elim
  | otherMaps page contents => exact hOurs.elim
  | otherUnmaps page => exact hOurs.elim

end Spares

end FileProcess

end KDoth
