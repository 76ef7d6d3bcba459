import KDoth.Files.FileFrames

/-
  Runs of a process with file handles and mappings: each
  handle keeps its file and each mapping its pages for as
  long as they are referred to, and other code keeps its own.

  Key definitions include:
    * `FileProcess.Orderly`
    * `FileProcess.LastsWith`

  Key theorems include:
    * `FileProcess.sound_of_reachable`
    * `FileProcess.handle_lasts`
    * `FileProcess.mapping_lasts`
    * `FileProcess.others_kept`
-/

------------------------------------------------------------
-- Orderly Runs
------------------------------------------------------------

namespace KDoth

namespace FileProcess

variable {File : Type} {pageSize : Nat}

/- Closing does not fail, and no count is about to wrap. -/
def Orderly
    (s : FileProcess File)
    (l : FileStep File) : Prop :=
  s.Roomy ∧ l.Orderly

instance (s : FileProcess File) : Decidable s.Roomy := by
  unfold Roomy
  infer_instance

instance (s : FileProcess File) (l : FileStep File) :
    Decidable (s.Orderly l) := by
  unfold Orderly
  infer_instance

theorem kept_start (file : File) :
    (start file).Kept pageSize [] where
  counted :=
    { balanced :=
        { counts := nofun
          positive := nofun
          closed := fun _ _ => rfl }
      graded := ⟨fun _ => 0, nofun⟩ }
  tabled :=
    { descriptors :=
        { held := nofun
          only := nofun }
      pages :=
        { held := by
            rintro o i ⟨_, _, hLive, _⟩
            cases hLive
          only := nofun }
      views := nofun
      astray := rfl }

variable {s s' : FileProcess File} {l : FileStep File}

/- What an orderly step keeps. -/
theorem Sound.next
    (hPageSize : 0 < pageSize)
    (hSound : s.Sound pageSize)
    (hOrderly : s.Orderly l)
    (hStep :
      (fileProcess pageSize File).step s l = some s') :
    s'.Sound pageSize := by
  have hBoth :
      (s.aborted = false ∧ s.Enabled pageSize l) ∧
        s.next pageSize l = s' := by
    simpa [fileProcess, step] using hStep
  rcases hBoth with ⟨⟨hGoes, hEnabled⟩, rfl⟩
  have hKept := hSound hGoes
  have hHeldLive {o : KObjectRef} (hHeld : 0 < s.held o) :
      o ∈ s.live :=
    hKept.counted.mem_of_held hHeld
  cases l with
  | fileHandleNew answer object =>
      exact hKept.fileHandleNew hEnabled.1 hEnabled.2
  | close o answers =>
      rcases hOrderly with ⟨_, hAnswers⟩
      have hOne : answers = [.success] := hAnswers
      subst hOne
      exact (hKept.close (hHeldLive hEnabled.1)).sound
  | getSize o sizeOut fstat =>
      have hSame :=
        hKept.getSize (hHeldLive hEnabled.1) sizeOut fstat
      show Sound pageSize (s.getSize o sizeOut fstat).2
      rw [hSame]
      exact hSound
  | newMapping o size protections answer fileMapping object =>
      rcases hEnabled with
        ⟨hHeld, _, hMmap, hFirst, hSecond, hDistinct⟩
      exact
        hKept.newMapping hPageSize (hHeldLive hHeld) hMmap
          hFirst hSecond hDistinct
  | mappingNew buffer count userData object =>
      refine Kept.sound (hKept.mappingNew ?_ ?_ hEnabled.1)
      · intro o hUser
        exact hHeldLive (hEnabled.2 o hUser)
      · intro o hUser
        exact hOrderly.1 o (hHeldLive (hEnabled.2 o hUser))
  | retain o =>
      have hLive := hHeldLive hEnabled
      exact
        (hKept.retain hLive (hOrderly.1 o hLive)).hold.sound
  | retainUserData k =>
      have hHeld : 0 < s.held k := hEnabled.1
      show Sound pageSize (s.retainUserData k)
      unfold retainUserData
      split
      · exact hSound
      · rename_i o hUser
        have hLive : o ∈ s.live :=
          hKept.counted.mem_of_edge (hHeldLive hHeld)
            (mem_references_of_userData hUser)
        exact
          (hKept.retain hLive
            (hOrderly.1 o hLive)).hold.sound
  | release o =>
      exact (hKept.unhold hEnabled).startRelease.sound
  | proceed o answers =>
      have hOne : answers.length = 1 := hOrderly.2
      rcases List.length_eq_one_iff.mp hOne with ⟨a, rfl⟩
      exact hKept.proceed hEnabled.1
  | otherOpens number file =>
      exact fun _ =>
        ⟨⟨hKept.counted.balanced, hKept.counted.graded⟩,
          hKept.tabled.descriptors.claim_other (by
            rintro i rfl
            exact Option.isNone_iff_eq_none.mp hEnabled),
          hKept.tabled.pages, hKept.tabled.views,
          hKept.tabled.astray⟩
  | otherCloses number =>
      exact fun _ =>
        ⟨⟨hKept.counted.balanced, hKept.counted.graded⟩,
          hKept.tabled.descriptors.clear_other (by
            rintro i rfl
            exact hEnabled),
          hKept.tabled.pages, hKept.tabled.views,
          hKept.tabled.astray⟩
  | otherMaps page contents =>
      exact fun _ =>
        ⟨⟨hKept.counted.balanced, hKept.counted.graded⟩,
          hKept.tabled.descriptors,
          hKept.tabled.pages.claim_other (by
            rintro i rfl
            exact Option.isNone_iff_eq_none.mp hEnabled),
          hKept.tabled.views, hKept.tabled.astray⟩
  | otherUnmaps page =>
      exact fun _ =>
        ⟨⟨hKept.counted.balanced, hKept.counted.graded⟩,
          hKept.tabled.descriptors,
          hKept.tabled.pages.clear_other (by
            rintro i rfl
            exact hEnabled),
          hKept.tabled.views, hKept.tabled.astray⟩

/- Orderly runs keep everything, unless they abort. -/
theorem sound_of_reachable
    (hPageSize : 0 < pageSize)
    (hReach :
      (fileProcess pageSize File).ReachableWhere Orderly s) :
    s.Sound pageSize := by
  apply hReach.invariant
  · rintro s ⟨file, rfl⟩
    exact (kept_start file).sound
  · intro s l s' hSound hOrderly hStep
    exact hSound.next hPageSize hOrderly hStep

end FileProcess

end KDoth

------------------------------------------------------------
-- Handles And Mappings Last
------------------------------------------------------------

namespace KDoth

namespace FileProcess

variable {File : Type} {pageSize : Nat}

/- An orderly run in which the object stays live. -/
def LastsWith
    (pageSize : Nat)
    (s : FileProcess File)
    (k : KObjectRef)
    (t : FileProcess File) : Prop :=
  ((fileProcess pageSize File).startingAt s).ReachableWhere
    (fun t l => t.Orderly l ∧ k ∈ t.live) t

variable {s t : FileProcess File} {l : FileStep File}
variable {o k : KObjectRef}

/- What a step that is taken does. -/
theorem step_eq
    (hStep :
      (fileProcess pageSize File).step s l = some t) :
    s.aborted = false ∧ s.Enabled pageSize l ∧
      s.next pageSize l = t := by
  have hBoth :
      (s.aborted = false ∧ s.Enabled pageSize l) ∧
        s.next pageSize l = t := by
    simpa [fileProcess, step] using hStep
  exact ⟨hBoth.1.1, hBoth.1.2, hBoth.2⟩

theorem LastsWith.sameObject
    (hLasts : LastsWith pageSize s k t) :
    SameObject s t k := by
  induction hLasts with
  | init hInit =>
      cases hInit
      exact .refl s k
  | step hReach hCond hStep ih =>
      rcases step_eq hStep with ⟨_, hEnabled, rfl⟩
      exact ih.trans (.next hCond.2 hEnabled)

theorem LastsWith.sound
    (hPageSize : 0 < pageSize)
    (hSound : s.Sound pageSize)
    (hLasts : LastsWith pageSize s k t) :
    t.Sound pageSize := by
  apply hLasts.invariant
  · rintro _ rfl
    exact hSound
  · intro s l s' hSound hCond hStep
    exact hSound.next hPageSize hCond.1 hStep

/- The protection of a file that is read and written. -/
def readWrite : KMapProtection where
  none := false
  read := true
  write := true
  exec := false

/- File 7 is opened with the number 3. -/
def withHandle : FileProcess Nat :=
  (start 0).next 4096
    (.fileHandleNew (some (3, 7)) (some ⟨1⟩))

/- Two pages of it are mapped. -/
def withMapping : FileProcess Nat :=
  withHandle.next 4096
    (.newMapping ⟨1⟩ 5000 readWrite (some 16) (some ⟨2⟩)
      (some ⟨3⟩))

/-
  From the call that opens it, a handle is on its file until
  it is closed or gone. It has its number in the meantime and
  none after it was closed.
-/
theorem handle_lasts
    {s' : FileProcess File}
    {number : Nat}
    {file : File}
    (hPageSize : 0 < pageSize)
    (hReach :
      (fileProcess pageSize File).ReachableWhere Orderly s)
    (hRoomy : s.Roomy)
    (hOpen :
      (fileProcess pageSize File).step s
        (.fileHandleNew (some (number, file)) (some o)) =
          some s')
    (hLasts : LastsWith pageSize s' o t)
    (hLive : o ∈ t.live)
    (hGoes : t.aborted = false) :
    ∃ closed,
      t.object o = .fileHandle ⟨number, closed⟩ ∧
        (∀ i, t.descriptors.BelongsTo i o ↔
          i = number ∧ closed = false) ∧
          ∀ fstat,
            (t.getSize o true fstat).1 =
              if closed then none else fstat file := by
  have hOrderly :
      s.Orderly
        (.fileHandleNew (some (number, file)) (some o)) :=
    ⟨hRoomy, trivial⟩
  have hSound :=
    (sound_of_reachable hPageSize hReach).next hPageSize
      hOrderly hOpen
  have hKept := hLasts.sound hPageSize hSound hGoes
  rcases step_eq hOpen with ⟨_, _, hNext⟩
  have hObject :
      s'.object o = .fileHandle ⟨number, false⟩ := by
    rw [← hNext]
    simp [next, fileHandleNew, hold, openHandle, alloc]
  have hOpened : s'.opened o = file := by
    rw [← hNext]
    simp [next, fileHandleNew, hold, openHandle]
  have hSame := hLasts.sameObject
  have hHandle :
      ∃ closed,
        t.object o = .fileHandle ⟨number, closed⟩ := by
    rcases hSame.object with
      hAgain | ⟨number', before, after, hOld, hNew⟩
    · exact ⟨false, hAgain.trans hObject⟩
    · rw [hObject] at hOld
      cases hOld
      exact ⟨after, hNew⟩
  rcases hHandle with ⟨closed, hHandle⟩
  refine ⟨closed, hHandle, ?_, ?_⟩
  · intro i
    constructor
    · intro hBelongs
      rcases hKept.tabled.descriptors.only o i hBelongs with
        ⟨_, hAlso⟩
      rw [hHandle] at hAlso
      cases hAlso
      exact ⟨rfl, rfl⟩
    · rintro ⟨rfl, rfl⟩
      exact
        hKept.tabled.descriptors.belongsTo ⟨hLive, hHandle⟩
  · intro fstat
    cases closed with
    | true => simp [getSize, hHandle]
    | false =>
        have hSlot :=
          hKept.tabled.descriptors.held o number
            ⟨hLive, hHandle⟩
        rw [hSame.opened, hOpened] at hSlot
        simp [getSize, hHandle, hSlot]

/- A handle that is mapped, while other files are opened. -/
theorem handle_lasts_while_mapped :
    ∃ t : FileProcess Nat,
      t.live = {⟨1⟩, ⟨2⟩, ⟨3⟩} ∧
        ∃ closed,
          t.object ⟨1⟩ = .fileHandle ⟨3, closed⟩ ∧
            (∀ i, t.descriptors.BelongsTo i ⟨1⟩ ↔
              i = 3 ∧ closed = false) ∧
              ∀ fstat,
                (t.getSize ⟨1⟩ true fstat).1 =
                  if closed then none else fstat 7 := by
  have hExec :
      ((fileProcess 4096 Nat).startingAt withHandle).exec
          withHandle
          [.newMapping ⟨1⟩ 5000 readWrite (some 16)
              (some ⟨2⟩) (some ⟨3⟩),
            .otherOpens 4 9, .proceed ⟨2⟩ [.success]] =
        some _ := rfl
  have hMeets :
      ((fileProcess 4096 Nat).startingAt
          withHandle).ExecMeets
        (fun t l => t.Orderly l ∧ ⟨1⟩ ∈ t.live) withHandle
          [.newMapping ⟨1⟩ 5000 readWrite (some 16)
              (some ⟨2⟩) (some ⟨3⟩),
            .otherOpens 4 9, .proceed ⟨2⟩ [.success]] := by
    decide
  have hLasts : LastsWith 4096 withHandle ⟨1⟩ _ :=
    TransitionSystem.reachableWhere_of_exec (.init rfl)
      hMeets hExec
  have hOpen :
      (fileProcess 4096 Nat).step (start 0)
        (.fileHandleNew (some (3, 7)) (some ⟨1⟩)) =
          some withHandle := rfl
  have hStays :=
    handle_lasts (by decide) (.init ⟨0, rfl⟩) (by decide)
      hOpen hLasts (by decide) rfl
  exact ⟨_, by decide, hStays⟩

/- The two objects of a mapping that was made for a file. -/
def Wraps
    (s : FileProcess File)
    (k m : KObjectRef)
    (mapping size : Nat)
    (contents : MappedFile File) : Prop :=
  s.object k = .mapping mapping size (some m) ∧
    s.object m = .fileMapping mapping size ∧
      s.mapped k = contents ∧ s.ofFile k = true

theorem wrapMapping_some
    {mapping size : Nat}
    {contents : MappedFile File}
    {fileMapping object : Option KObjectRef}
    (hDistinct : ∀ m ∈ fileMapping, m ∉ object)
    (hValue :
      (s.wrapMapping pageSize mapping size contents
        fileMapping object).1 = some k) :
    ∃ m,
      (s.wrapMapping pageSize mapping size contents
        fileMapping object).2.Wraps k m mapping size
          contents := by
  match fileMapping, object with
  | none, _ =>
      simp [wrapMapping] at hValue
  | some m, none =>
      simp [wrapMapping, mappingNew] at hValue
  | some m, some x =>
      have hSame : x = k := by
        simpa [wrapMapping, mappingNew] using hValue
      have hNe : m ≠ k := by
        rintro rfl
        exact hDistinct m rfl (congrArg some hSame)
      subst hSame
      refine ⟨m, ?_⟩
      simp [Wraps, wrapMapping, mappingNew, forFile,
        startRelease, hold, alloc, retain, mapPages, hNe]

/- What `KFileHandleNewMapping` makes when it returns one. -/
theorem newMapping_some
    {size : Nat}
    {protections : KMapProtection}
    {answer : Option Nat}
    {fileMapping object : Option KObjectRef}
    (hDistinct : ∀ m ∈ fileMapping, m ∉ object)
    (hValue :
      (s.newMapping pageSize o size protections answer
        fileMapping object).1 = some k) :
    ∃ number page slot m,
      s.object o = .fileHandle ⟨number, false⟩ ∧
        answer = some page ∧
          s.descriptors number = some slot ∧
            (s.newMapping pageSize o size protections answer
              fileMapping object).2.Wraps k m
                (page * pageSize) size
                  (protections.apply slot.content) := by
  unfold newMapping at hValue ⊢
  split at hValue
  · rename_i handle hObject
    rcases handle with ⟨number, _ | _⟩
    · simp only [Bool.false_eq_true, if_false] at hValue
      split at hValue
      · rename_i page slot hSlot
        rcases wrapMapping_some hDistinct hValue with
          ⟨m, hWraps⟩
        refine
          ⟨number, page, slot, m, hObject, rfl, hSlot, ?_⟩
        simp only [Bool.false_eq_true, if_false, hSlot]
        exact hWraps
      · cases hValue
    · cases hValue
  · cases hValue

/-
  A mapping made for a handle shows the file that the handle
  was opened on, for as long as the mapping is live: all its
  pages are mapped, whatever happens to the handle, to other
  mappings and to the files and pages of other code.
-/
theorem mapping_lasts
    {s₀ s₁ s' : FileProcess File}
    {number size : Nat}
    {file : File}
    {protections : KMapProtection}
    {answer : Option Nat}
    {fileMapping object : Option KObjectRef}
    (hPageSize : 0 < pageSize)
    (hReach :
      (fileProcess pageSize File).ReachableWhere Orderly s₀)
    (hRoomy : s₀.Roomy)
    (hOpen :
      (fileProcess pageSize File).step s₀
        (.fileHandleNew (some (number, file)) (some o)) =
          some s₁)
    (hOpenLasts : LastsWith pageSize s₁ o s)
    (hRoomyToo : s.Roomy)
    (hMap :
      (fileProcess pageSize File).step s
        (.newMapping o size protections answer fileMapping
          object) = some s')
    (hValue :
      (s.newMapping pageSize o size protections answer
        fileMapping object).1 = some k)
    (hLasts : LastsWith pageSize s' k t)
    (hLive : k ∈ t.live)
    (hGoes : t.aborted = false) :
    ∃ page m,
      answer = some page ∧
        t.getBuffer k = some (page * pageSize) ∧
          t.getMappingSize k = size ∧
            t.getUserData k = some m ∧
              ∀ i,
                InPages pageSize (page * pageSize) size i →
                  t.pages i =
                    some ⟨some m, protections.apply file⟩ := by
  have hOrderly :
      s₀.Orderly
        (.fileHandleNew (some (number, file)) (some o)) :=
    ⟨hRoomy, trivial⟩
  have hOrderlyToo :
      s.Orderly
        (.newMapping o size protections answer fileMapping
          object) :=
    ⟨hRoomyToo, trivial⟩
  have hSound :=
    hOpenLasts.sound hPageSize
      ((sound_of_reachable hPageSize hReach).next hPageSize
        hOrderly hOpen)
  have hKept :=
    hLasts.sound hPageSize
      (hSound.next hPageSize hOrderlyToo hMap) hGoes
  rcases step_eq hOpen with ⟨_, _, hFirst⟩
  rcases step_eq hMap with ⟨hWent, hEnabled, hSecond⟩
  rcases newMapping_some hEnabled.2.2.2.2.2 hValue with
    ⟨number', page, slot, m, hHandle, hAnswer, hSlot, hWraps⟩
  have hFile : slot.content = file := by
    have hOpened : s.opened o = file := by
      rw [hOpenLasts.sameObject.opened, ← hFirst]
      simp [next, fileHandleNew, hold, openHandle]
    have hOwn :=
      (hSound hWent).tabled.descriptors.held o number'
        ⟨(hSound hWent).counted.mem_of_held hEnabled.1,
          hHandle⟩
    rw [hSlot] at hOwn
    cases hOwn
    exact hOpened
  have hState :
      (s.newMapping pageSize o size protections answer
        fileMapping object).2 = s' :=
    hSecond
  rw [hState, hFile] at hWraps
  rcases hWraps with ⟨hMapping, _, hMapped, hOfFile⟩
  have hSame := hLasts.sameObject
  have hStill :
      t.object k = .mapping (page * pageSize) size (some m) := by
    rcases hSame.object with hAgain | ⟨_, _, _, hOld, _⟩
    · exact hAgain.trans hMapping
    · rw [hMapping] at hOld
      cases hOld
  rcases hKept.tabled.views k hLive
      (hSame.ofFile.trans hOfFile) with
    ⟨m', mapping, size', hView, hPages, hShown⟩
  rw [hStill] at hView
  cases hView
  refine ⟨page, m, hAnswer, ?_, ?_, ?_, ?_⟩
  · simp [getBuffer, hStill]
  · simp [getMappingSize, hStill]
  · simp [getUserData, hStill]
  · intro i hIn
    have hLiveToo : m ∈ t.live :=
      hKept.counted.mem_of_edge hLive (by
        rw [hStill]
        simp [FileObject.references])
    have hPage :=
      hKept.tabled.pages.held m i
        ⟨_, _, hLiveToo, hPages, hIn⟩
    rw [hPage, ← hShown, hSame.mapped, hMapped]

/-
  The handle is closed and gone, and its number is another
  file's: the mapping shows the first file.
-/
theorem mapping_lasts_after_close :
    ∃ t : FileProcess Nat,
      t.live = {⟨2⟩, ⟨3⟩} ∧
        (t.descriptors 3).map Slot.content = some 9 ∧
          ∃ page m,
            some 16 = some page ∧
              t.getBuffer ⟨3⟩ = some (page * 4096) ∧
                t.getMappingSize ⟨3⟩ = 5000 ∧
                  t.getUserData ⟨3⟩ = some m ∧
                    ∀ i,
                      InPages 4096 (page * 4096) 5000 i →
                        t.pages i =
                          some ⟨some m, readWrite.apply 7⟩ := by
  have hExec :
      ((fileProcess 4096 Nat).startingAt withMapping).exec
          withMapping
          [.proceed ⟨2⟩ [.success], .close ⟨1⟩ [.success],
            .release ⟨1⟩, .proceed ⟨1⟩ [.success],
            .otherOpens 3 9] = some _ := rfl
  have hMeets :
      ((fileProcess 4096 Nat).startingAt
          withMapping).ExecMeets
        (fun t l => t.Orderly l ∧ ⟨3⟩ ∈ t.live) withMapping
          [.proceed ⟨2⟩ [.success], .close ⟨1⟩ [.success],
            .release ⟨1⟩, .proceed ⟨1⟩ [.success],
            .otherOpens 3 9] := by
    decide
  have hLasts : LastsWith 4096 withMapping ⟨3⟩ _ :=
    TransitionSystem.reachableWhere_of_exec (.init rfl)
      hMeets hExec
  have hOpen :
      (fileProcess 4096 Nat).step (start 0)
        (.fileHandleNew (some (3, 7)) (some ⟨1⟩)) =
          some withHandle := rfl
  have hMap :
      (fileProcess 4096 Nat).step withHandle
        (.newMapping ⟨1⟩ 5000 readWrite (some 16) (some ⟨2⟩)
          (some ⟨3⟩)) = some withMapping := rfl
  have hShows :=
    mapping_lasts (by decide) (.init ⟨0, rfl⟩) (by decide)
      hOpen (.init rfl) (by decide) hMap rfl hLasts
      (by decide) rfl
  exact ⟨_, by decide, rfl, hShows⟩

/-
  However the library is used, the numbers and pages of other
  code stay: nothing is closed or unmapped twice, and every
  call to the system is on what is the object's own.
-/
theorem others_kept
    (hPageSize : 0 < pageSize)
    (hReach :
      (fileProcess pageSize File).ReachableWhere Orderly s)
    (hLater :
      ((fileProcess pageSize File).startingAt
        s).ReachableWhere (fun t l => t.Orderly l ∧ l.Ours)
          t) :
    Spares s t ∧ (t.aborted = false → t.astray = false) := by
  have hStart := sound_of_reachable hPageSize hReach
  have hBoth : t.Sound pageSize ∧ Spares s t := by
    apply hLater.invariant
    · rintro _ rfl
      exact ⟨hStart, .refl _⟩
    · rintro t l t' ⟨hSound, hSpares⟩ ⟨hOrderly, hOurs⟩ hStep
      have hNext :
          (fileProcess pageSize File).step t l = some t' :=
        hStep
      rcases step_eq hNext with ⟨hGoes, hEnabled, rfl⟩
      have hStepSpares :=
        Spares.next hPageSize (hSound hGoes) hEnabled
          hOrderly.2 hOurs
      refine ⟨hSound.next hPageSize hOrderly hNext, ?_⟩
      exact hSpares.trans hStepSpares
  exact
    ⟨hBoth.2, fun hGoes => (hBoth.1 hGoes).tabled.astray⟩

/- Other code has file 9 with the number 4, and a page. -/
def withOthers : FileProcess Nat :=
  ((start 0).next 4096 (.otherOpens 4 9)).next 4096
    (.otherMaps 15 (readWrite.apply 9))

/- They are there after a handle and a mapping are gone. -/
theorem others_kept_while_used :
    ∃ t : FileProcess Nat,
      t.live = ∅ ∧
        Spares withOthers t ∧
          (t.aborted = false → t.astray = false) := by
  have hStart :
      (fileProcess 4096 Nat).ReachableWhere Orderly
        (start 0) :=
    .init ⟨0, rfl⟩
  have hFirst :
      (fileProcess 4096 Nat).exec (start 0)
          [.otherOpens 4 9,
            .otherMaps 15 (readWrite.apply 9)] =
        some withOthers := rfl
  have hReach :=
    TransitionSystem.reachableWhere_of_exec hStart
      (by decide) hFirst
  have hExec :
      ((fileProcess 4096 Nat).startingAt withOthers).exec
          withOthers
          [.fileHandleNew (some (3, 7)) (some ⟨1⟩),
            .newMapping ⟨1⟩ 5000 readWrite (some 16)
              (some ⟨2⟩) (some ⟨3⟩),
            .release ⟨1⟩, .proceed ⟨1⟩ [.success],
            .release ⟨3⟩, .proceed ⟨2⟩ [.success],
            .proceed ⟨3⟩ [.success],
            .proceed ⟨2⟩ [.success]] = some _ := rfl
  have hMeets :
      ((fileProcess 4096 Nat).startingAt
          withOthers).ExecMeets
        (fun t l => t.Orderly l ∧ l.Ours) withOthers
          [.fileHandleNew (some (3, 7)) (some ⟨1⟩),
            .newMapping ⟨1⟩ 5000 readWrite (some 16)
              (some ⟨2⟩) (some ⟨3⟩),
            .release ⟨1⟩, .proceed ⟨1⟩ [.success],
            .release ⟨3⟩, .proceed ⟨2⟩ [.success],
            .proceed ⟨3⟩ [.success],
            .proceed ⟨2⟩ [.success]] := by
    decide
  have hLater :=
    TransitionSystem.reachableWhere_of_exec (.init rfl)
      hMeets hExec
  exact
    ⟨_, by decide, others_kept (by decide) hReach hLater⟩

end FileProcess

end KDoth

