import KDoth.Files.Adding
import KDoth.Files.KFileHandle
import KDoth.Files.Rendering
import KDoth.Foundations.TransitionSystem

/-
  The path that `open` gets is the path that was meant, if the
  path has a component. The string of any other path has no
  room for a terminator.

  Key definitions include:
    * `PathClient`
    * `PathClient.system`
    * `KFileHandle.OpensMeant`

  Key theorems include:
    * `PathClient.named_of_reachable`
    * `KFileHandle.opensMeant_iff`
-/

------------------------------------------------------------
-- Clients
------------------------------------------------------------

namespace KDoth

/- A program that holds paths, in the order it got them. -/
structure PathClient where
  memory : StringMemory
  paths : List KFilePathHead

/- A call on paths, or whatever else the program does. -/
inductive PathAction where
  | newWithString (str : Option Nat)
  | addComponent (path comp : Option Nat)
  | other (memory : StringMemory)

namespace PathClient

open KFilePath (isSeparator)
open KFilePathHead StringView

variable (source : AddressSource)

def system : TransitionSystem PathClient PathAction where
  Init c := c.paths = []
  step c
  | .newWithString str =>
      match newWithString source str c.memory with
      | .ok path memory => some ⟨memory, c.paths ++ path.toList⟩
      | .error _ _ => none
  | .addComponent path comp =>
      match addComponent source c.paths path comp c.memory with
      | .ok (paths, _) memory => some ⟨memory, paths⟩
      | .error _ _ => none
  | .other memory => some ⟨memory, c.paths⟩

/-
  Strings without zero bytes are parsed, and the strings that
  paths own are left alone.
-/
def Rule (c : PathClient) : PathAction → Prop
| .newWithString (some str) =>
    ∃ text, Holds c.memory.cell str text ∧ 0 ∉ text
| .newWithString none => True
| .addComponent path comp =>
    (∀ i, path = some i → i < c.paths.length) ∧
      ∀ j, comp = some j → j < c.paths.length
| .other memory =>
    ∀ path ∈ c.paths, ∀ a ∈ path.components, ∀ bytes,
      Holds c.memory.cell a bytes → Holds memory.cell a bytes

end PathClient

end KDoth

------------------------------------------------------------
-- Names Of Paths
------------------------------------------------------------

namespace KDoth

namespace PathClient

open Command KFilePathHead StringView
open KFilePath (isSeparator)

variable {source : AddressSource} {c c' : PathClient}
variable {cell cell' : Nat → Option StringCell}
variable {path receiver added : KFilePathHead}

/- The path stands for a path name without zero bytes. -/
def Named
    (cell : Nat → Option StringCell)
    (path : KFilePathHead)
    (name : Pathname isSeparator) : Prop :=
  Stores cell path name.isAbsolute name.components ∧
    ∀ part ∈ name.components, 0 ∉ part

theorem Named.keeps
    {name : Pathname isSeparator}
    (hNamed : Named cell path name)
    (hKeeps :
      ∀ a ∈ path.components, ∀ bytes,
        Holds cell a bytes → Holds cell' a bytes) :
    Named cell' path name := by
  refine ⟨⟨hNamed.1.isAbsolute, ?_⟩, hNamed.2⟩
  have hHolds := hNamed.1.components
  rw [List.forall₂_iff_get] at hHolds ⊢
  refine ⟨hHolds.1, ?_⟩
  intro i hFirst hSecond
  exact
    hKeeps _ (List.getElem_mem hFirst) _
      (hHolds.2 i hFirst hSecond)

/- The parts of a string have no bytes that it has not. -/
theorem named_of_parsed
    {text : List UInt8}
    (hText : 0 ∉ text)
    (hStores :
      Stores cell path (text.head?.any isSeparator)
        (Segments.segments isSeparator text)) :
    Named cell path (Pathname.parse isSeparator text) := by
  refine ⟨hStores, ?_⟩
  intro part hPart hZero
  exact hText (Segments.mem_of_mem_segments hPart hZero)

/- A path that is added to has the name with more parts. -/
theorem Named.extend
    {name other : Pathname isSeparator}
    (hReceiver : Named cell receiver name)
    (hAdded : Named cell added other) :
    Named cell (receiver.extend added.components)
      (name.append other) := by
  constructor
  · exact
      ⟨hReceiver.1.isAbsolute,
        List.rel_append hReceiver.1.components
          hAdded.1.components⟩
  · intro part hPart
    rcases List.mem_append.mp hPart with hFirst | hSecond
    · exact hReceiver.2 part hFirst
    · exact hAdded.2 part hSecond

/- Every path of the program has a name. -/
def AllNamed (c : PathClient) : Prop :=
  ∀ path ∈ c.paths, ∃ name, Named c.memory.cell path name

theorem AllNamed.parse
    {str : Nat}
    (hAll : AllNamed c)
    (hRule : Rule c (.newWithString (some str)))
    (hStep :
      (system source).step c (.newWithString (some str)) =
        some c') :
    AllNamed c' := by
  rcases hRule with ⟨_, ⟨v, hShows, rfl⟩, hText⟩
  have hParse := @wp_newWithString c.memory source str v hShows
  unfold system wp at *
  dsimp only at hStep
  cases hRun : newWithString source (some str) c.memory with
  | error e s' =>
      rw [hRun] at hStep
      cases hStep
  | ok r s' =>
      rw [hRun] at hStep hParse
      cases hStep
      rcases hParse with ⟨hExtends, path, rfl, hStores⟩
      intro other hOther
      rcases List.mem_append.mp hOther with hOld | hNew
      · rcases hAll other hOld with ⟨name, hNamed⟩
        exact
          ⟨name,
            hNamed.keeps fun _ _ _ h => h.mono hExtends⟩
      · rw [List.mem_singleton.mp hNew]
        exact ⟨_, named_of_parsed hText hStores⟩

theorem AllNamed.add
    {i j : Nat}
    (hAll : AllNamed c)
    (hi : i < c.paths.length)
    (hj : j < c.paths.length)
    (hStep :
      (system source).step c (.addComponent (some i) (some j)) =
        some c') :
    AllNamed c' := by
  have hReceiver := List.getElem?_eq_getElem hi
  have hComp := List.getElem?_eq_getElem hj
  rcases hAll _ (List.getElem_mem hi) with ⟨name, hName⟩
  rcases hAll _ (List.getElem_mem hj) with ⟨other, hOther⟩
  cases hAbsolute : c.paths[j].isAbsolute with
  | true =>
      have hNot : isAbsoluteOrNull c.paths[j]? = true := by
        rw [hComp]
        exact hAbsolute
      simp only [system, addComponent, hNot, if_true] at hStep
      cases hStep
      exact hAll
  | false =>
      have hAdd :=
        @wp_addComponent c.memory source c.paths _ _ i j
          hReceiver hComp hAbsolute fun _ ha =>
            hOther.1.holds ha
      unfold system wp at *
      dsimp only at hStep
      cases hRun :
          addComponent source c.paths (some i) (some j)
            c.memory with
      | error e s' =>
          rw [hRun] at hStep
          cases hStep
      | ok r s' =>
          rw [hRun] at hStep hAdd
          cases hStep
          rcases hAdd with ⟨rfl, hKeeps⟩
          intro path hPath
          rcases List.mem_or_eq_of_mem_set hPath with
            hOld | hNew
          · rcases hAll path hOld with ⟨before, hBefore⟩
            exact
              ⟨before, hBefore.keeps fun _ _ _ => hKeeps _ _⟩
          · rw [hNew]
            exact
              ⟨_, (hName.extend hOther).keeps
                fun _ _ _ => hKeeps _ _⟩

/- By induction on what the program does. -/
theorem named_of_reachable
    (hReach : (system source).ReachableWhere Rule c) :
    AllNamed c := by
  apply hReach.invariant
  · intro c hInit path hPath
    change c.paths = [] at hInit
    rw [hInit] at hPath
    cases hPath
  · intro c action c' hAll hRule hStep
    cases action with
    | newWithString str =>
        cases str with
        | some str => exact hAll.parse hRule hStep
        | none =>
            cases hStep
            intro path hPath
            rw [Option.toList_none, List.append_nil] at hPath
            exact hAll path hPath
    | addComponent path comp =>
        cases path with
        | none =>
            cases hStep
            exact hAll
        | some i =>
            cases comp with
            | none =>
                cases hStep
                exact hAll
            | some j =>
                exact
                  hAll.add (hRule.1 i rfl) (hRule.2 j rfl) hStep
    | other memory =>
        cases hStep
        intro path hPath
        rcases hAll path hPath with ⟨name, hNamed⟩
        exact ⟨name, hNamed.keeps (hRule path hPath)⟩

end PathClient

end KDoth

------------------------------------------------------------
-- Reading The Path
------------------------------------------------------------

namespace KDoth

namespace KFileHandle

open Command MemoryCall StringCall StringView

variable {s : StringMemory} {E : Fault → StringMemory → Prop}
variable {string : Nat} {u : StringView}
variable {permission : KFilePermission}

theorem wp_readCString
    {bytes : List UInt8}
    {rest : List (Option UInt8)}
    {Q : List UInt8 → StringMemory → Prop}
    (hText : 0 ∉ bytes) :
    wp (readCString (bytes.map some ++ some 0 :: rest)) Q E s ↔
      Q bytes s := by
  induction bytes generalizing Q with
  | nil => rfl
  | cons byte bytes ih =>
      rcases List.ne_and_not_mem_of_not_mem_cons hText with
        ⟨hByte, hBytes⟩
      simp only [List.map_cons, List.cons_append, readCString,
        if_neg hByte.symm, wp_bind, ih hBytes, wp_pure]

/- Without a zero byte the read leaves the block. -/
theorem wp_readCString_unterminated
    {bytes : List UInt8}
    {Q : List UInt8 → StringMemory → Prop}
    (hText : 0 ∉ bytes) :
    wp (readCString (bytes.map some)) Q E s ↔
      E .outOfBounds s := by
  induction bytes generalizing Q with
  | nil => rfl
  | cons byte bytes ih =>
      rcases List.ne_and_not_mem_of_not_mem_cons hText with
        ⟨hByte, hBytes⟩
      simp only [List.map_cons, readCString, if_neg hByte.symm,
        wp_bind, ih hBytes]

/- The string ends in its block. -/
def Terminated
    (cell : Nat → Option StringCell)
    (string : Nat)
    (text : List UInt8) : Prop :=
  ∃ u,
    Shows cell string u ∧
      u.bytes = text ∧ 0 ∉ text ∧ u.extra.head? = some (some 0)

theorem wp_openOnce
    {text : List UInt8}
    {Q : OpenCall → StringMemory → Prop}
    (hTerminated : Terminated s.cell string text) :
    wp (openOnce string permission) Q E s ↔
      Q ⟨text, openFlags permission⟩ s := by
  rcases hTerminated with ⟨u, hShows, rfl, hText, hEnd⟩
  rcases hShows.block with ⟨block, hBlock, hBytes⟩
  rcases List.head?_eq_some_iff.mp hEnd with ⟨rest, hRest⟩
  simp only [openOnce, wp_bind, wp_loadObject hShows.object]
  simp only [head, wp_loadBlock hBlock, hBytes, hRest,
    wp_readCString hText, wp_pure]

/- Every call gets the text. -/
theorem wp_openUninterrupted
    {text : List UInt8}
    (hTerminated : Terminated s.cell string text)
    (interruptions : Nat) :
    wp (openUninterrupted string permission interruptions)
      (fun calls s' =>
        s' = s ∧ ∀ call ∈ calls, call.text = text) E s := by
  induction interruptions with
  | zero =>
      simp only [openUninterrupted, wp_bind,
        wp_openOnce hTerminated, wp_pure]
      refine ⟨trivial, ?_⟩
      intro call hCall
      rw [List.mem_singleton.mp hCall]
  | succ interruptions ih =>
      simp only [openUninterrupted, wp_bind,
        wp_openOnce hTerminated]
      apply wp_imp ih
      rintro calls s' ⟨rfl, hCalls⟩
      refine ⟨rfl, ?_⟩
      intro call hCall
      rcases List.mem_cons.mp hCall with hFirst | hRest
      · rw [hFirst]
      · exact hCalls call hRest

/- The first call reads behind the end of the block. -/
theorem wp_openUninterrupted_unterminated
    {Q : List OpenCall → StringMemory → Prop}
    (hOutside : E .outOfBounds s)
    (hShows : Shows s.cell string u)
    (hText : 0 ∉ u.bytes)
    (hExtra : u.extra = [])
    (interruptions : Nat) :
    wp (openUninterrupted string permission interruptions)
      Q E s := by
  rcases hShows.block with ⟨block, hBlock, hBytes⟩
  rw [hExtra, List.append_nil] at hBytes
  have hOnce {Q : OpenCall → StringMemory → Prop} :
      wp (openOnce string permission) Q E s := by
    simp only [openOnce, wp_bind, wp_loadObject hShows.object]
    simp only [head, wp_loadBlock hBlock, hBytes,
      wp_readCString_unterminated hText]
    exact hOutside
  cases interruptions with
  | zero =>
      simp only [openUninterrupted, wp_bind]
      exact hOnce
  | succ interruptions =>
      simp only [openUninterrupted, wp_bind]
      exact hOnce

end KFileHandle

end KDoth

------------------------------------------------------------
-- Opening
------------------------------------------------------------

namespace KDoth

namespace KFileHandle

open Command StringCall StringView PathClient KFilePathHead
open KFilePath (isSeparator slash)

variable {s : StringMemory} {source : AddressSource}
variable {path : KFilePathHead} {name : Pathname isSeparator}
variable {permission : KFilePermission} {interruptions : Nat}

/-
  Each call of `open` gets the rendering of the path, from a
  string that ends in its block.
-/
def OpensMeant
    (source : AddressSource)
    (s : StringMemory)
    (path : KFilePathHead)
    (permission : KFilePermission)
    (interruptions : Nat) : Prop :=
  ∃ name : Pathname isSeparator,
    Named s.cell path name ∧
      wp (openPath source (some path) permission interruptions)
        (fun r s' =>
          ∀ string calls, r = some (string, calls) →
            Terminated s'.cell string (name.render slash) ∧
              ∀ call ∈ calls, call.text = name.render slash)
        (fun e _ => ∃ reason, e = .stop reason) s

/- The rendering has no zero byte. -/
theorem zero_notMem_render
    (hNamed : Named s.cell path name) :
    0 ∉ name.render slash := by
  intro hZero
  rcases List.mem_append.mp hZero with hFront | hParts
  · split at hFront
    · cases List.mem_singleton.mp hFront
    · cases hFront
  · rcases Segments.mem_of_mem_intercalate hParts with
      hSep | ⟨part, hPart, hMem⟩
    · cases hSep
    · exact hNamed.2 part hPart hMem

/- A path with a component is opened as it is meant. -/
theorem wp_openPath_meant
    {E : Fault → StringMemory → Prop}
    (hOccupied : ∀ s', E .occupied s')
    (hStops : ∀ reason s', E (.stop reason) s')
    (hNamed : Named s.cell path name)
    (hCondition :
      name.components ≠ [] ∨
        RootRefused source s.nextRequest name.isAbsolute slash) :
    wp (openPath source (some path) permission interruptions)
      (fun r s' =>
        ∀ string calls, r = some (string, calls) →
          Terminated s'.cell string (name.render slash) ∧
            ∀ call ∈ calls, call.text = name.render slash)
      E s := by
  simp only [openPath, newStringRepresentation, wp_bind]
  apply wp_imp
    (wp_newStringRepresentationWithSeparator hOccupied
      (fun _ => hStops) hNamed.1)
  rintro r s₁ (⟨rfl, _, _⟩ | ⟨a, u, rfl, hGranted, hRendered⟩)
  · intro _ _ hEq
    cases hEq
  · have hSome : name.components ≠ [] :=
      hCondition.resolve_right hGranted
    have hExtra := hRendered.extra
    rw [if_neg hSome] at hExtra
    have hTerminated :
        Terminated s₁.cell a (name.render slash) :=
      ⟨u, hRendered.grown.shows, hRendered.bytes,
        zero_notMem_render hNamed, by rw [hExtra]; rfl⟩
    simp only [wp_bind]
    apply wp_imp
      (wp_openUninterrupted hTerminated interruptions)
    rintro calls s₂ ⟨rfl, hCalls⟩ string calls' hEq
    cases hEq
    exact ⟨hTerminated, hCalls⟩

/- Without components the string of the path does not end. -/
theorem wp_openPath_unterminated
    {Q :
      Option (Nat × List OpenCall) → StringMemory → Prop}
    (hNamed : Named s.cell path name)
    (hNone : name.components = [])
    (hGranted :
      ¬ RootRefused source s.nextRequest name.isAbsolute
        slash) :
    wp (openPath source (some path) permission interruptions)
      Q (fun e _ => e = .occupied ∨ e = .outOfBounds) s := by
  have hNever {p : Prop}
      (hStops :
        name.components ≠ [] ∨
          RootRefused source s.nextRequest name.isAbsolute
            slash) : p := by
    rcases hStops with hSome | hRefused
    · exact absurd hNone hSome
    · exact absurd hRefused hGranted
  simp only [openPath, newStringRepresentation, wp_bind]
  apply wp_imp
    (wp_newStringRepresentationWithSeparator
      (fun _ => .inl rfl) (fun h => hNever h) hNamed.1)
  rintro r s₁
    (⟨rfl, _, hRefused⟩ | ⟨a, u, rfl, _, hRendered⟩)
  · exact absurd hRefused hGranted
  · have hExtra := hRendered.extra
    rw [if_pos hNone] at hExtra
    simp only [wp_bind]
    apply wp_openUninterrupted_unterminated (.inr rfl)
      hRendered.grown.shows _ hExtra
    rw [hRendered.bytes]
    exact zero_notMem_render hNamed

/-
  In every program the path that is opened is the one that was
  meant exactly when it has a component, or when there is no
  memory for the string of a path without any.
-/
theorem opensMeant_iff
    (source : AddressSource)
    (c : PathClient)
    (path : KFilePathHead)
    (permission : KFilePermission)
    (interruptions : Nat)
    (hReach : (PathClient.system source).ReachableWhere Rule c)
    (hPath : path ∈ c.paths)
    (hFresh :
      FreshAnswers
        (openPath source (some path) permission interruptions)
        c.memory) :
    OpensMeant source c.memory path permission interruptions ↔
      path.components ≠ [] ∨
        RootRefused source c.memory.nextRequest
          path.isAbsolute slash := by
  have hMeaning {name : Pathname isSeparator}
      (hNamed : Named c.memory.cell path name) :
      (path.components ≠ [] ↔ name.components ≠ []) ∧
        path.isAbsolute = name.isAbsolute := by
    have hLength := hNamed.1.components.length_eq
    refine ⟨?_, hNamed.1.isAbsolute⟩
    rw [ne_eq, ne_eq, ← List.length_eq_zero_iff, hLength,
      List.length_eq_zero_iff]
  constructor
  · rintro ⟨name, hNamed, hMeant⟩
    rw [(hMeaning hNamed).1, (hMeaning hNamed).2]
    by_contra hNot
    rw [not_or, not_not] at hNot
    have hBad :=
      @wp_openPath_unterminated c.memory source path name
        permission interruptions (fun _ _ => False) hNamed
        hNot.1 hNot.2
    apply
      @not_wp_false _ _ _ c.memory
        (openPath source (some path) permission interruptions)
    apply wp_mono (wp_and hFresh (wp_and hMeant hBad))
    · exact fun _ _ h => h.2.2
    · rintro e _ ⟨hFree, ⟨reason, rfl⟩, hOccupied | hOutside⟩
      · exact hFree hOccupied
      · cases hOutside
  · intro hCondition
    rcases named_of_reachable hReach path hPath with
      ⟨name, hNamed⟩
    rw [(hMeaning hNamed).1, (hMeaning hNamed).2] at hCondition
    refine ⟨name, hNamed, ?_⟩
    have hMeant :=
      @wp_openPath_meant c.memory source path name permission
        interruptions
        (fun e _ => e = .occupied ∨ ∃ reason, e = .stop reason)
        (fun _ => .inl rfl) (fun _ _ => .inr ⟨_, rfl⟩) hNamed
        hCondition
    apply wp_mono (wp_and hFresh hMeant)
    · exact fun _ _ hBoth => hBoth.2
    · exact fun _ _ hBoth => hBoth.2.resolve_left hBoth.1

/- An empty string and a separator. -/
def texts : Nat → List UInt8
| 0 => []
| _ => [47]

/- The strings are at 0 and 2, each in front of its block. -/
def textsMemory : StringMemory where
  process := Process.initial
  cell a :=
    if 4 ≤ a then none
    else if a % 2 = 0 then
      some (.object ⟨1, (texts (a / 2)).length, some (a + 1)⟩)
    else if hSmall :
        ((texts (a / 2)).map some).length ≤ ptrdiffMax then
      some (.block ⟨(texts (a / 2)).map some, hSmall⟩)
    else none

theorem opensMeant_iff_empty :
    ∃ c : PathClient,
      (PathClient.system (.counting 4)).exec ⟨textsMemory, []⟩
          [.newWithString (some 0)] = some c ∧
        (OpensMeant (.counting 4) c.memory ⟨[], false⟩ .readOnly
            0 ↔
          ([] : List Nat) ≠ [] ∨
            RootRefused (.counting 4) c.memory.nextRequest false
              slash) := by
  have hText : Holds textsMemory.cell 0 [] :=
    ⟨⟨1, 1, [], []⟩, ⟨rfl, _, rfl, rfl⟩, rfl⟩
  have hMeets :
      (PathClient.system (.counting 4)).ExecMeets Rule
        ⟨textsMemory, []⟩ [.newWithString (some 0)] :=
    ⟨⟨[], hText, nofun⟩, fun _ _ => trivial⟩
  refine ⟨_, rfl, ?_⟩
  have hReach :=
    TransitionSystem.reachableWhere_of_exec (.init rfl) hMeets
      rfl
  apply
    opensMeant_iff (.counting 4) _ ⟨[], false⟩ .readOnly 0
      hReach List.mem_cons_self
  exact (nofun : Fault.outOfBounds ≠ Fault.occupied)

/-
  The empty path and the root are opened with strings that do
  not end in their blocks.
-/
theorem opens_unterminated :
    ∃ c : PathClient,
      (PathClient.system (.counting 4)).exec ⟨textsMemory, []⟩
          [.newWithString (some 0), .newWithString (some 2)] =
          some c ∧
        c.paths = [⟨[], false⟩, ⟨[], true⟩] ∧
          ∀ path ∈ c.paths,
            ¬ OpensMeant (.counting 4) c.memory path .readOnly
              0 := by
  refine ⟨_, rfl, rfl, ?_⟩
  have hNot {s : StringMemory}
      {path : KFilePathHead}
      (hOutside :
        wp (openPath (.counting 4) (some path) .readOnly 0)
          (fun _ _ => False) (fun e _ => e = .outOfBounds) s) :
      ¬ OpensMeant (.counting 4) s path .readOnly 0 := by
    rintro ⟨_, _, hMeant⟩
    apply
      @not_wp_false _ _ _ s
        (openPath (.counting 4) (some path) .readOnly 0)
    apply wp_mono (wp_and hOutside hMeant)
    · exact fun _ _ hBoth => hBoth.1
    · rintro e _ ⟨rfl, reason, hStop⟩
      cases hStop
  intro path hPath
  rcases List.mem_cons.mp hPath with rfl | hRest
  · exact hNot rfl
  · rw [List.mem_singleton.mp hRest]
    exact hNot rfl

end KFileHandle

end KDoth
