import KDoth.Files.Granted
import KDoth.Foundations.TransitionSystem

/-
  Clients that build file paths, and reading back the
  renderings of their paths.

  Key definitions include:
    * `KFilePath.PathCall`
    * `KFilePath.clients`
    * `KFilePath.reparse`
    * `KFilePath.normalize`

  Key theorems include:
    * `KFilePath.wellFormed_of_reachable`
    * `KFilePath.rendering_reads_back`
-/

------------------------------------------------------------
-- Clients
------------------------------------------------------------

namespace KDoth

namespace KFilePath

/- Calls of a client that has some paths. -/
inductive PathCall where
  | newWithString (str : StoredString)
  | addComponent (path comp : Nat)

/- The paths that were made so far, and the process. -/
structure Client where
  paths : List KFilePath
  process : Process

/- Calls that return a path, or add to one. -/
def Client.step
    (allocator : Allocator)
    (client : Client) :
    PathCall → Option Client
| .newWithString str =>
    match
      KFilePath.newWithString allocator (some str.string)
        client.process with
    | .ok (some path) p =>
        some { paths := client.paths ++ [path], process := p }
    | _ => none
| .addComponent path comp =>
    if path < client.paths.length ∧
        comp < client.paths.length then
      match
        KFilePath.addComponent allocator client.paths (some path)
          (some comp) client.process with
      | .ok (paths, _) p => some { paths := paths, process := p }
      | _ => none
    else
      none

/- Clients that start without paths. -/
def clients
    (allocator : Allocator) :
    TransitionSystem Client PathCall where
  Init client := client.paths = []
  step := Client.step allocator

end KFilePath

end KDoth

------------------------------------------------------------
-- Well-Formed Paths
------------------------------------------------------------

namespace KDoth

namespace KFilePath

open Segments

variable {allocator : Allocator}

theorem WellFormed.extended
    {receiver other : KFilePath}
    (hReceiver : receiver.WellFormed)
    (hOther : other.WellFormed) :
    (receiver.extended other.components.items).WellFormed := by
  intro s hs
  rcases List.mem_append.mp hs with hOld | hNew
  · exact hReceiver s hOld
  · exact hOther s hNew

/- A call keeps every path well formed. -/
theorem wellFormed_of_step
    (hGranted : ∀ n, allocator n = true)
    {client next : Client}
    {call : PathCall}
    (hFormed : ∀ path ∈ client.paths, path.WellFormed)
    (hStep : client.step allocator call = some next) :
    ∀ path ∈ next.paths, path.WellFormed := by
  cases call with
  | newWithString str =>
      have hParse :=
        yields_newWithString hGranted str.stored.holds
      simp only [Client.step] at hStep
      split at hStep
      · rename_i path p hRun
        cases hStep
        rcases hParse.of_ok hRun with ⟨parsed, hEq, hName⟩
        cases hEq
        intro other hOther
        rcases List.mem_append.mp hOther with hOld | hNew
        · exact hFormed other hOld
        · rw [List.mem_singleton.mp hNew]
          exact hName.wellFormed
      · cases hStep
  | addComponent path comp =>
      simp only [Client.step] at hStep
      split at hStep
      · rename_i hBounds
        have hReceiver := List.getElem?_eq_getElem hBounds.1
        have hOther := List.getElem?_eq_getElem hBounds.2
        split at hStep
        · rename_i paths added p hRun
          cases hStep
          cases hAbsolute :
              client.paths[comp].isAbsolute with
          | true =>
              simp only [KFilePath.addComponent, hOther,
                isAbsoluteOrNull, hAbsolute, if_true] at hRun
              cases hRun
              exact hFormed
          | false =>
              have hEq :=
                (yields_addComponent hGranted hReceiver hOther
                  hAbsolute).of_ok hRun
              cases hEq
              intro other hMem
              rcases List.mem_or_eq_of_mem_set hMem with
                hOld | hNew
              · exact hFormed other hOld
              · rw [hNew]
                exact
                  WellFormed.extended
                    (hFormed _ (List.getElem_mem hBounds.1))
                    (hFormed _ (List.getElem_mem hBounds.2))
        · cases hStep
      · cases hStep

/- Every path of a client is well formed. -/
theorem wellFormed_of_reachable
    (hGranted : ∀ n, allocator n = true)
    {client : Client}
    (hReach : (clients allocator).Reachable client) :
    ∀ path ∈ client.paths, path.WellFormed := by
  apply TransitionSystem.Reachable.invariant ?_ ?_ hReach
  · intro s hInit path hPath
    change s.paths = [] at hInit
    rw [hInit] at hPath
    cases hPath
  · intro s call s' hFormed hStep
    exact wellFormed_of_step hGranted hFormed hStep

end KFilePath

end KDoth

------------------------------------------------------------
-- Reading Back
------------------------------------------------------------

namespace KDoth

namespace KFilePath

open Command

variable {allocator : Allocator}

/- `SIZE_MAX`. -/
def sizeMax : Nat := 2 ^ 64 - 1

/- Render a path and parse the rendering. -/
def reparse
    (allocator : Allocator)
    (sep : UInt8)
    (path : KFilePath) :
    Call (Option KFilePath) := do
  let string ←
    newStringRepresentationWithSeparator allocator (some path)
      sep
  newWithString allocator string

/- Parse a string and render the path. -/
def normalize
    (allocator : Allocator)
    (sep : UInt8)
    (string : Option KString) :
    Call (Option KString) := do
  let path ← newWithString allocator string
  newStringRepresentationWithSeparator allocator path sep

/- Bytes of the components and separators of a rendering. -/
def representationSize (path : KFilePath) : Nat :=
  (if path.isAbsolute then 1 else 0) +
    (path.components.items.map KString.size).sum +
    (path.components.items.length - 1)

/- The size of a rendering is that of the text. -/
theorem Represents.length_render
    {path : KFilePath}
    {name : Pathname isSeparator}
    (hName : path.Represents name)
    (sep : UInt8) :
    (name.render sep).length = path.representationSize := by
  have hSizes :
      path.components.items.map KString.size =
        name.components.map List.length := by
    rw [← hName.bytes, componentBytes, List.map_map]
    apply List.map_congr_left
    intro s hs
    exact (hName.stored s hs).holds.length.symm
  have hCount :
      path.components.items.length = name.components.length := by
    rw [← hName.bytes, componentBytes, List.length_map]
  have hRoot :
      (if name.isAbsolute then [sep] else []).length =
        if path.isAbsolute then 1 else 0 := by
    rw [hName.isAbsolute]
    cases name.isAbsolute <;> rfl
  unfold Pathname.render representationSize
  rw [List.length_append, hRoot, Segments.length_intercalate,
    hSizes, hCount, Nat.add_assoc]

/- A well-formed path is read back from its rendering. -/
theorem yields_reparse
    (hGranted : ∀ n, allocator n = true)
    {sep : UInt8}
    (hSep : isSeparator sep = true)
    {path : KFilePath}
    {name : Pathname isSeparator}
    (hName : path.Represents name)
    (hFits : path.representationSize < sizeMax) :
    Yields (reparse allocator sep path)
      (fun r =>
        ∃ parsed, r = some parsed ∧ parsed.Represents name) := by
  have hRoom : (name.render sep).length + 1 < 2 ^ 64 := by
    rw [hName.length_render]
    unfold sizeMax at hFits
    omega
  unfold reparse
  apply Yields.bind
    (yields_newStringRepresentation hGranted hName hRoom)
  rintro _ ⟨string, hEq, hHolds⟩
  subst hEq
  apply (yields_newWithString hGranted hHolds).mono
  rintro _ ⟨parsed, hEq, hParsed⟩
  rw [Pathname.parse_render name hSep] at hParsed
  exact ⟨parsed, hEq, hParsed⟩

/- Normalizing writes back the path name of the text. -/
theorem yields_normalize
    (hGranted : ∀ n, allocator n = true)
    (sep : UInt8)
    {string : KString}
    {text : List UInt8}
    (hHolds : string.Holds text)
    (hFits : text.length < sizeMax) :
    Yields (normalize allocator sep (some string))
      (fun r =>
        ∃ rendered,
          r = some rendered ∧
            rendered.Holds
              ((Pathname.parse isSeparator text).render sep)) := by
  have hRoom :
      ((Pathname.parse isSeparator text).render sep).length + 1 <
        2 ^ 64 := by
    have hShorter :=
      Pathname.length_render_parse_le isSeparator text sep
    unfold sizeMax at hFits
    omega
  unfold normalize
  apply Yields.bind (yields_newWithString hGranted hHolds)
  rintro _ ⟨path, hEq, hName⟩
  subst hEq
  exact yields_newStringRepresentation hGranted hName hRoom

/-
  Whatever paths a client builds, the rendering of a path
  reads back as the same path, and parsing and rendering a
  string a second time changes nothing. A rendering has a
  size in `size_t`, its terminator included.
-/
theorem rendering_reads_back
    (allocator : Allocator)
    (hGranted : ∀ n, allocator n = true)
    (sep : UInt8)
    (hSep : sep = slash ∨ sep = backslash) :
    (∀ client,
      (clients allocator).Reachable client →
        ∀ path ∈ client.paths,
          path.representationSize < sizeMax →
            Returns (reparse allocator sep path) client.process
              (fun r _ =>
                ∃ parsed,
                  r = some parsed ∧
                    parsed.isAbsolute = path.isAbsolute ∧
                    parsed.componentBytes =
                      path.componentBytes)) ∧
      ∀ (str : StoredString) (p : Process),
        str.string.size < sizeMax →
          Returns
            (do
              let once ←
                normalize allocator sep (some str.string)
              let twice ← normalize allocator sep once
              pure (once, twice))
            p
            (fun r _ =>
              ∃ once twice,
                r = (some once, some twice) ∧
                  twice.bytes = once.bytes) := by
  have hIsSep : isSeparator sep = true := by
    rcases hSep with hSlash | hBackslash
    · rw [hSlash]
      rfl
    · rw [hBackslash]
      rfl
  constructor
  · intro client hReach path hPath hFits
    have hFormed :=
      wellFormed_of_reachable hGranted hReach path hPath
    rcases hFormed.exists_represents with ⟨name, hName⟩
    apply
      (yields_reparse hGranted hIsSep hName hFits
        client.process).mono
    rintro _ _ ⟨parsed, hEq, hParsed⟩
    refine ⟨parsed, hEq, ?_, ?_⟩
    · rw [hParsed.isAbsolute, hName.isAbsolute]
    · rw [hParsed.bytes, hName.bytes]
  · intro str p hFits
    have hHolds := str.stored.holds
    have hLength := hHolds.length
    have hTwice :
        Yields
          (do
            let once ← normalize allocator sep (some str.string)
            let twice ← normalize allocator sep once
            pure (once, twice))
          (fun r =>
            ∃ once twice,
              r = (some once, some twice) ∧
                twice.bytes = once.bytes) := by
      rw [← hLength] at hFits
      apply Yields.bind
        (yields_normalize hGranted sep hHolds hFits)
      rintro _ ⟨once, hEq, hOnce⟩
      subst hEq
      have hShorter :=
        Pathname.length_render_parse_le isSeparator
          str.string.bytes sep
      apply Yields.bind
        (yields_normalize hGranted sep hOnce (by omega))
      rintro _ ⟨twice, hEq, hAgain⟩
      subst hEq
      refine Yields.ret ⟨once, twice, rfl, ?_⟩
      rw [hAgain.bytes, hOnce.bytes,
        Pathname.parse_render _ hIsSep]
    exact hTwice p

/- The path of "/a" with the component of "b" added. -/
theorem rendering_reads_back_added :
    ∃ client path,
      (clients fun _ => true).Reachable client ∧
        path ∈ client.paths ∧
        path.isAbsolute = true ∧
        path.componentBytes = [[97], [98]] ∧
        Returns (reparse (fun _ => true) slash path)
          client.process
          (fun r _ =>
            ∃ parsed,
              r = some parsed ∧
                parsed.isAbsolute = path.isAbsolute ∧
                parsed.componentBytes =
                  path.componentBytes) := by
  let first : StoredString :=
    ⟨⟨0, 2, some [47, 97]⟩, by decide⟩
  let second : StoredString :=
    ⟨⟨1, 1, some [98]⟩, by decide⟩
  have hExec :
      (clients fun _ => true).exec ⟨[], Process.initial⟩
        [.newWithString first, .newWithString second,
          .addComponent 0 1] = some _ :=
    rfl
  have hReach := TransitionSystem.reachable_of_exec rfl hExec
  have hAll :=
    rendering_reads_back (fun _ => true) (fun _ => rfl) slash
      (Or.inl rfl)
  exact
    ⟨_, _, hReach, List.mem_cons_self, rfl, rfl,
      hAll.1 _ hReach _ List.mem_cons_self (by decide)⟩

end KFilePath

end KDoth
