import KDoth.Files.Parsing
import KDoth.Strings.Formatting

/-
  What the string is, in memory, that a path is rendered
  into. Whether its block has room for a terminator depends
  on how it was made.

  Key definitions include:
    * `KFilePathHead.RootRefused`
    * `KFilePathHead.Rendered`

  Key theorems include:
    * `KFilePathHead.wp_newStringRepresentationWithSeparator`
-/

------------------------------------------------------------
-- Strings That Grow
------------------------------------------------------------

namespace KDoth

namespace StringView

variable {cell cell' : Nat → Option StringCell}
variable {a b : Nat} {u w : StringView}

/- A string of before has neither address of the new one. -/
theorem Grown.apart
    (hGrown : Grown cell cell' a u)
    (hShows : Shows cell b w) :
    (a ≠ b ∧ a ≠ w.buffer) ∧
      u.buffer ≠ b ∧ u.buffer ≠ w.buffer := by
  rcases hShows.block with ⟨block, hBlock, _⟩
  have hObject := hShows.object
  have hNe (p q : Nat)
      (c : StringCell)
      (hFree : cell p = none)
      (hLive : cell q = some c) : p ≠ q := by
    intro hEq
    rw [← hEq, hFree] at hLive
    cases hLive
  exact
    ⟨⟨hNe _ _ _ hGrown.object hObject,
        hNe _ _ _ hGrown.object hBlock⟩,
      hNe _ _ _ hGrown.block hObject,
      hNe _ _ _ hGrown.block hBlock⟩

end StringView

namespace KStringHead

open Command MemoryCall StringCall StringView

variable {s : StringMemory} {source : AddressSource}
variable {E : Fault → StringMemory → Prop}
variable {cell : Nat → Option StringCell}
variable {a b : Nat} {u : StringView}
variable {bytes : List UInt8}

/- A string of before is appended to the new one. -/
theorem wp_append_grown
    (hOccupied : ∀ s', E .occupied s')
    (hGrown : Grown cell s.cell a u)
    (hHolds : Holds cell b bytes) :
    wp (append source (some a) (some b))
      (fun r s' =>
        r = true →
          ∃ u',
            Grown cell s'.cell a u' ∧
              u'.refCount = u.refCount ∧
                u'.bytes = u.bytes ++ bytes ∧
                  (u'.bytes ≠ [] → u'.extra = [some 0]))
      E s := by
  rcases hHolds with ⟨w, hShows, rfl⟩
  have hApart := (hGrown.apart hShows).2.2.symm
  apply wp_append hOccupied hGrown.shows
    (hShows.mono hGrown.kept) (.inr hApart)
  · intro s' _ hFalse
    cases hFalse
  · intro s' u' hChanged hCount hBytes hExtra _
    exact
      ⟨u', hGrown.changed hChanged, hCount, hBytes, hExtra⟩

end KStringHead

end KDoth

------------------------------------------------------------
-- The Loop
------------------------------------------------------------

namespace KDoth

namespace KFilePathHead

open Command MemoryCall StringCall KStringHead StringView
open KFilePath (isSeparator)

variable {s : StringMemory} {source : AddressSource}
variable {E : Fault → StringMemory → Prop}
variable {cell : Nat → Option StringCell}
variable {path : KFilePathHead} {name : Pathname isSeparator}
variable {sepChar : UInt8} {sep : Option Nat} {a i : Nat}

theorem wp_kAssert_stops
    {condition : Bool}
    {Q : Unit → StringMemory → Prop}
    (hStops : ∀ reason s', E (.stop reason) s')
    (hPost : condition = true → Q () s) :
    wp (kAssert condition) Q E s := by
  cases condition with
  | false => exact hStops _ _
  | true => exact hPost rfl

/-
  After `i` components the string at `a` is the start of the
  text, and has room for a terminator from the first on.
-/
def Rendering
    (cell cell' : Nat → Option StringCell)
    (name : Pathname isSeparator)
    (sepChar : UInt8)
    (a i : Nat) : Prop :=
  ∃ u,
    Grown cell cell' a u ∧
      u.refCount = 1 ∧
        u.bytes ++
            [sepChar].intercalate (name.components.drop i) =
          name.render sepChar ∧
          u.extra = if i = 0 then [] else [some 0]

/- The separator follows all components but the last. -/
theorem intercalate_drop
    {parts : List (List UInt8)}
    (hi : i < parts.length) :
    [sepChar].intercalate (parts.drop i) =
      parts[i] ++
        (if i ≠ parts.length - 1 then
            [sepChar] ++
              [sepChar].intercalate (parts.drop (i + 1))
          else []) := by
  rw [List.drop_eq_getElem_cons hi]
  by_cases hLast : i = parts.length - 1
  · have hNone : parts.drop (i + 1) = [] := by
      rw [List.drop_eq_nil_iff]
      omega
    rw [hNone, if_neg (not_not.mpr hLast), List.append_nil,
      List.intercalate_singleton]
  · have hSome : parts.drop (i + 1) ≠ [] := by
      rw [ne_eq, List.drop_eq_nil_iff]
      omega
    rw [if_pos hLast, List.intercalate_cons_of_ne_nil hSome,
      List.append_assoc]

/- One step of the loop. -/
theorem wp_appendComponent
    (hOccupied : ∀ s', E .occupied s')
    (hStops : ∀ reason s', E (.stop reason) s')
    (hStores :
      Stores cell path name.isAbsolute name.components)
    (hSep : ∀ b, sep = some b → Holds cell b [sepChar])
    (hi : i < name.components.length)
    (hRendering : Rendering cell s.cell name sepChar a i) :
    wp (appendComponent source path sep (some a) i)
      (fun _ s' =>
        Rendering cell s'.cell name sepChar a (i + 1))
      E s := by
  rcases hRendering with ⟨u, hGrown, hCount, hText, hExtra⟩
  have hLength := hStores.components.length_eq
  have hItem : i < path.components.length := hLength ▸ hi
  have hHolds :
      Holds cell path.components[i] name.components[i] :=
    hStores.components.get hItem hi
  have hPart : name.components[i] ≠ [] :=
    (name.areSegments _ (List.getElem_mem hi)).nonempty
  rw [intercalate_drop hi, ← List.append_assoc] at hText
  simp only [appendComponent, List.getElem?_eq_getElem hItem,
    wp_bind]
  apply wp_imp (wp_append_grown hOccupied hGrown hHolds)
  intro r s₁ hAppended
  apply wp_kAssert_stops hStops
  intro hr
  rcases hAppended hr with
    ⟨u₁, hGrown₁, hCount₁, hBytes₁, hExtra₁⟩
  rw [← hBytes₁] at hText
  have hSome₁ : u₁.bytes ≠ [] := by
    rw [hBytes₁]
    exact List.append_ne_nil_of_right_ne_nil _ hPart
  by_cases hLast : i = path.components.length - 1
  · rw [if_neg (not_not.mpr hLast), wp_pure]
    rw [if_neg (not_not.mpr (hLength ▸ hLast)),
      List.append_nil] at hText
    have hNone : name.components.drop (i + 1) = [] := by
      rw [List.drop_eq_nil_iff]
      omega
    refine ⟨u₁, hGrown₁, hCount₁.trans hCount, ?_, ?_⟩
    · rw [hNone, List.intercalate_nil, List.append_nil]
      exact hText
    · rw [if_neg (Nat.succ_ne_zero i)]
      exact hExtra₁ hSome₁
  · rw [if_pos hLast, wp_bind]
    rw [if_pos (hLength ▸ hLast), ← List.append_assoc] at hText
    cases hSepString : sep with
    | none =>
        change wp (pure false) _ _ _
        rw [wp_pure]
        exact hStops _ _
    | some b =>
        apply wp_imp
          (wp_append_grown hOccupied hGrown₁
            (hSep b hSepString))
        intro r' s₂ hAppended'
        apply wp_kAssert_stops hStops
        intro hr'
        rcases hAppended' hr' with
          ⟨u₂, hGrown₂, hCount₂, hBytes₂, hExtra₂⟩
        rw [← hBytes₂] at hText
        refine
          ⟨u₂, hGrown₂, (hCount₂.trans hCount₁).trans hCount,
            hText, ?_⟩
        rw [if_neg (Nat.succ_ne_zero i)]
        apply hExtra₂
        rw [hBytes₂]
        exact List.append_ne_nil_of_left_ne_nil hSome₁ _

end KFilePathHead

end KDoth

------------------------------------------------------------
-- The String Of A Path
------------------------------------------------------------

namespace KDoth

namespace KFilePathHead

open Command MemoryCall StringCall KStringHead StringView
open KFilePath (isSeparator)

variable {s : StringMemory} {source : AddressSource}
variable {E : Fault → StringMemory → Prop}
variable {cell : Nat → Option StringCell}
variable {path : KFilePathHead} {name : Pathname isSeparator}
variable {sepChar : UInt8} {sep : Option Nat} {a : Nat}

/-
  The allocator refuses the string that the components are
  appended to, with the requests from `n` on. An absolute path
  begins with a copy of the separator, which is needed first.
-/
def RootRefused
    (source : AddressSource)
    (n : Nat)
    (isAbsolute : Bool)
    (sepChar : UInt8) : Prop :=
  match isAbsolute with
  | true =>
      (Formatting.char sepChar).Refused source n ∨
        KStringHead.Refused source (n + 2) 1
  | false => KStringHead.Refused source (requestsAfter source n) 0

/- The string of the separator. -/
structure Separates
    (source : AddressSource)
    (s s' : StringMemory)
    (sepChar : UInt8)
    (sep : Option Nat) : Prop where
  requests : s'.nextRequest = requestsAfter source s.nextRequest
  refused :
    sep = none ↔
      (Formatting.char sepChar).Refused source s.nextRequest
  kept : Extends s.cell s'.cell
  made :
    ∀ b, sep = some b →
      ∃ w,
        Made s.cell s'.cell b w ∧
          w.refCount = 1 ∧ w.bytes = [sepChar]

theorem Separates.holds
    {s' : StringMemory}
    {b : Nat}
    (hSeparates : Separates source s s' sepChar sep)
    (hSep : sep = some b) :
    Holds s'.cell b [sepChar] := by
  rcases hSeparates.made b hSep with ⟨w, hMade, _, hBytes⟩
  exact ⟨w, hMade.shows, hBytes⟩

theorem wp_separator
    (hOccupied : ∀ s', E .occupied s') :
    wp (newWithFormatV source (.char sepChar))
      (fun sep s' => Separates source s s' sepChar sep) E s := by
  have hCount : (Formatting.char sepChar).count.toInt = 1 := rfl
  apply wp_newWithFormatV hOccupied
  · intro s' hRefused hRequests hCell
    have hChar :
        (Formatting.char sepChar).Refused source
          s.nextRequest := by
      rcases hRefused with hRefused | hOther
      · exact hRefused
      · rw [hCount] at hOther
        omega
    exact
      ⟨hRequests, iff_of_true rfl hChar,
        hCell ▸ Extends.refl _, nofun⟩
  · intro _ hGranted b s' w hRequests hMade hOnce hBytes _
    refine
      ⟨hRequests, iff_of_false nofun hGranted, hMade.extends,
        ?_⟩
    intro b' hEq
    cases hEq
    exact ⟨w, hMade, hOnce, hBytes⟩
  · intro hError
    rw [hCount] at hError
    omega

/- The root is missing, or nothing has been appended to it. -/
theorem wp_representationRoot
    {s₀ : StringMemory}
    (hOccupied : ∀ s', E .occupied s')
    (hStops :
      RootRefused source s₀.nextRequest name.isAbsolute
          sepChar →
        ∀ reason s', E (.stop reason) s')
    (hSeparates : Separates source s₀ s sepChar sep)
    (hFlag : path.isAbsolute = name.isAbsolute) :
    wp (representationRoot source path sep)
      (fun r s' =>
        (r = none ∧ s'.cell = s.cell ∧
            RootRefused source s₀.nextRequest
              name.isAbsolute sepChar) ∨
          ∃ a,
            r = some a ∧
              ¬ RootRefused source s₀.nextRequest
                name.isAbsolute sepChar ∧
              Rendering s.cell s'.cell name sepChar a 0)
      E s := by
  have hRequests := hSeparates.requests
  unfold representationRoot
  rw [hFlag]
  cases hAbsolute : name.isAbsolute with
  | false =>
      rw [if_neg Bool.false_ne_true]
      rw [hAbsolute] at hStops
      apply wp_new hOccupied
      · intro hRefused
        rw [hRequests] at hRefused
        exact hStops hRefused _
      · intro s' hRefused hCell
        rw [hRequests] at hRefused
        exact .inl ⟨rfl, hCell, hRefused⟩
      · intro hGranted a s' u hMade hOnce hBytes hExtra
        rw [hRequests] at hGranted
        refine
          .inr ⟨a, rfl, hGranted, u, hMade.grown, hOnce, ?_,
            hExtra⟩
        rw [hBytes, Pathname.render, hAbsolute]
        rfl
  | true =>
      rw [if_pos rfl]
      cases hSep : sep with
      | none =>
          exact
            .inl
              ⟨rfl, rfl, .inl (hSeparates.refused.mp hSep)⟩
      | some b =>
          rcases hSeparates.made b hSep with
            ⟨w, hMade, _, hBytes⟩
          have hChar :
              ¬ (Formatting.char sepChar).Refused source
                s₀.nextRequest := by
            rw [← hSeparates.refused, hSep]
            exact Option.some_ne_none b
          have hTwo :
              requestsAfter source s₀.nextRequest =
                s₀.nextRequest + 2 := by
            unfold requestsAfter
            cases hObject :
                source s₀.nextRequest (.objectNew .kString) with
            | none => exact absurd (.inl hObject) hChar
            | some _ => rfl
          rw [hTwo] at hRequests
          have hOne : w.bytes.length = 1 := by
            rw [hBytes]
            rfl
          rw [hAbsolute] at hStops
          apply wp_copy hOccupied hMade.shows
          · intro hRefused
            rw [hRequests, hOne] at hRefused
            exact hStops (.inr hRefused) _
          · intro s' hRefused hCell
            rw [hRequests, hOne] at hRefused
            exact .inl ⟨rfl, hCell, .inr hRefused⟩
          · intro hGranted a s' u hRoot hOnce hCopied hExtra
            rw [hRequests, hOne] at hGranted
            refine
              .inr ⟨a, rfl, ?_, u, hRoot.grown, hOnce, ?_,
                hExtra⟩
            · rintro (hRefused | hRefused)
              · exact hChar hRefused
              · exact hGranted hRefused
            · rw [hCopied, hBytes, Pathname.render, hAbsolute]
              rfl

/- What is not the separator is as it was. -/
theorem grown_of_released
    {s₀ s₁ s' : StringMemory}
    {b : Nat}
    {u w : StringView}
    (hKept : Extends s₀.cell s₁.cell)
    (hMade : Made s₀.cell s₁.cell b w)
    (hGrown : Grown s₁.cell s.cell a u)
    (hOthers :
      ∀ c, c ≠ b → c ≠ w.buffer → s'.cell c = s.cell c) :
    Grown s₀.cell s'.cell a u := by
  rcases hGrown.apart hMade.shows with
    ⟨⟨hFirst, hSecond⟩, hThird, hFourth⟩
  constructor
  · exact hKept.free hGrown.object
  · exact hKept.free hGrown.block
  · apply hGrown.shows.congr
    · exact hOthers a hFirst hSecond
    · exact hOthers u.buffer hThird hFourth
  · intro c x hCell
    rw [hOthers c, hGrown.kept c x (hMade.extends c x hCell)]
    · intro hEq
      rw [hEq, hMade.object] at hCell
      cases hCell
    · intro hEq
      rw [hEq, hMade.block] at hCell
      cases hCell

/- The separator is released. -/
theorem wp_releaseSeparator
    {s₀ s₁ : StringMemory}
    {Q : Unit → StringMemory → Prop}
    (hSeparates : Separates source s₀ s₁ sepChar sep)
    (hKept : Extends s₁.cell s.cell)
    (hPost :
      ∀ s',
        (∀ a u,
          Grown s₁.cell s.cell a u →
            Grown s₀.cell s'.cell a u) →
          Q () s') :
    wp (releaseOrNull sep) Q E s := by
  cases hSep : sep with
  | none =>
      apply hPost s
      intro a u hGrown
      exact
        ⟨hSeparates.kept.free hGrown.object,
          hSeparates.kept.free hGrown.block, hGrown.shows,
          hSeparates.kept.trans hGrown.kept⟩
  | some b =>
      rcases hSeparates.made b hSep with
        ⟨w, hMade, hOnce, _⟩
      apply wp_release_last (hMade.shows.mono hKept) hOnce
      intro s' _ _ _ hOthers
      apply hPost
      intro a u hGrown
      exact
        grown_of_released hSeparates.kept hMade hGrown hOthers

/- Without a root nothing can be appended. -/
theorem wp_appendComponents_null
    (hStops :
      path.components ≠ [] → ∀ reason s', E (.stop reason) s') :
    wp
      (forM (List.range path.components.length)
        (appendComponent source path sep none))
      (fun _ s' => path.components.length = 0 ∧ s' = s) E s := by
  apply wp_forRange fun i s' => i = 0 ∧ s' = s
  · intro i s₁ hi _
    simp only [appendComponent, append, wp_bind, wp_pure]
    apply hStops
    exact List.ne_nil_of_length_pos (Nat.zero_lt_of_lt hi)
  · exact ⟨rfl, rfl⟩

/- Every component is appended. -/
theorem wp_appendComponents
    (hOccupied : ∀ s', E .occupied s')
    (hStops :
      name.components ≠ [] → ∀ reason s', E (.stop reason) s')
    (hStores :
      Stores cell path name.isAbsolute name.components)
    (hSep : ∀ b, sep = some b → Holds cell b [sepChar])
    (hRoot : Rendering cell s.cell name sepChar a 0) :
    wp
      (forM (List.range path.components.length)
        (appendComponent source path sep (some a)))
      (fun _ s' =>
        Rendering cell s'.cell name sepChar a
          name.components.length)
      E s := by
  rw [hStores.components.length_eq]
  apply wp_forRange fun i (s' : StringMemory) =>
    Rendering cell s'.cell name sepChar a i
  · intro i s₁ hi hInv
    have hSome : name.components ≠ [] :=
      List.ne_nil_of_length_pos (Nat.zero_lt_of_lt hi)
    exact
      wp_appendComponent hOccupied (hStops hSome) hStores hSep
        hi hInv
  · exact hRoot

/-
  What the string of a path is. Without components nothing was
  appended, and there is no room for a terminator.
-/
structure Rendered
    (cell cell' : Nat → Option StringCell)
    (name : Pathname isSeparator)
    (sepChar : UInt8)
    (a : Nat)
    (u : StringView) : Prop where
  grown : Grown cell cell' a u
  refCount : u.refCount = 1
  bytes : u.bytes = name.render sepChar
  extra :
    u.extra = if name.components = [] then [] else [some 0]

theorem wp_newStringRepresentationWithSeparator
    (hOccupied : ∀ s', E .occupied s')
    (hStops :
      name.components ≠ [] ∨
          RootRefused source s.nextRequest name.isAbsolute
            sepChar →
        ∀ reason s', E (.stop reason) s')
    (hStores :
      Stores s.cell path name.isAbsolute name.components) :
    wp
      (newStringRepresentationWithSeparator source (some path)
        sepChar)
      (fun r s' =>
        (r = none ∧ name.components = [] ∧
            RootRefused source s.nextRequest name.isAbsolute
              sepChar) ∨
          ∃ a u,
            r = some a ∧
              ¬ RootRefused source s.nextRequest
                name.isAbsolute sepChar ∧
              Rendered s.cell s'.cell name sepChar a u)
      E s := by
  have hLength := hStores.components.length_eq
  simp only [newStringRepresentationWithSeparator, wp_bind]
  apply wp_imp (wp_separator hOccupied)
  intro sep s₁ hSeparates
  have hStores₁ := hStores.mono hSeparates.kept
  apply wp_imp
    (wp_representationRoot hOccupied (fun h => hStops (.inr h))
      hSeparates hStores.isAbsolute)
  rintro root s₂
    (⟨rfl, hCell₂, hRefused⟩ | ⟨a, rfl, hGranted, hRendering⟩)
  · apply wp_imp
      (wp_appendComponents_null fun _ => hStops (.inr hRefused))
    rintro _ s₃ ⟨hNone, rfl⟩
    rw [hLength, List.length_eq_zero_iff] at hNone
    have hKept : Extends s₁.cell s₃.cell := by
      rw [hCell₂]
      exact Extends.refl _
    apply wp_releaseSeparator hSeparates hKept
    intro s₄ _
    exact .inl ⟨rfl, hNone, hRefused⟩
  · apply wp_imp
      (wp_appendComponents hOccupied (fun h => hStops (.inl h))
        hStores₁ (fun _ hb => hSeparates.holds hb) hRendering)
    rintro _ s₃ ⟨u, hGrown, hCount, hText, hExtra⟩
    apply wp_releaseSeparator hSeparates hGrown.kept
    intro s₄ hStill
    refine
      .inr
        ⟨a, u, rfl, hGranted, hStill a u hGrown, hCount, ?_, ?_⟩
    · rw [List.drop_length, List.intercalate_nil,
        List.append_nil] at hText
      exact hText
    · rw [hExtra]
      simp only [List.length_eq_zero_iff]

end KFilePathHead

end KDoth
