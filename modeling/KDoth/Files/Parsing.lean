import KDoth.Files.KFilePathHead
import KDoth.Files.Pathname
import Mathlib.Data.List.Forall2

/-
  Parsing a string in memory takes exactly its maximal runs
  without separators, each by a slice inside the string.

  Key definitions include:
    * `StringView.Holds`
    * `KFilePathHead.Stores`

  Key theorems include:
    * `KFilePathHead.wp_addSlice`
    * `KFilePathHead.wp_newWithString`
    * `KFilePathHead.parsing_exact`
-/

------------------------------------------------------------
-- Paths In Memory
------------------------------------------------------------

namespace KDoth

/- A string with the given bytes is at the address. -/
def StringView.Holds
    (cell : Nat → Option StringCell)
    (a : Nat)
    (bytes : List UInt8) : Prop :=
  ∃ v, Shows cell a v ∧ v.bytes = bytes

theorem StringView.Holds.mono
    {cell cell' : Nat → Option StringCell}
    {a : Nat}
    {bytes : List UInt8}
    (hExtends : Extends cell cell')
    (hHolds : Holds cell a bytes) :
    Holds cell' a bytes := by
  rcases hHolds with ⟨v, hShows, hBytes⟩
  exact ⟨v, hShows.mono hExtends, hBytes⟩

namespace KFilePathHead

open StringView

/- The flag of the path and the bytes of its components. -/
structure Stores
    (cell : Nat → Option StringCell)
    (path : KFilePathHead)
    (isAbsolute : Bool)
    (parts : List (List UInt8)) : Prop where
  isAbsolute : path.isAbsolute = isAbsolute
  components :
    List.Forall₂ (Holds cell) path.components parts

theorem Stores.mono
    {cell cell' : Nat → Option StringCell}
    {path : KFilePathHead}
    {isAbsolute : Bool}
    {parts : List (List UInt8)}
    (hExtends : Extends cell cell')
    (hStores : Stores cell path isAbsolute parts) :
    Stores cell' path isAbsolute parts :=
  ⟨hStores.isAbsolute,
    hStores.components.imp fun _ _ h => h.mono hExtends⟩

/- One more component at the end. -/
theorem Stores.append
    {cell : Nat → Option StringCell}
    {path : KFilePathHead}
    {isAbsolute : Bool}
    {parts : List (List UInt8)}
    {a : Nat}
    {part : List UInt8}
    (hStores : Stores cell path isAbsolute parts)
    (hHolds : Holds cell a part) :
    Stores cell
      { path with components := path.components ++ [a] }
      isAbsolute (parts ++ [part]) :=
  ⟨hStores.isAbsolute,
    List.rel_append hStores.components
      (.cons hHolds .nil)⟩

end KFilePathHead

end KDoth

------------------------------------------------------------
-- Slices
------------------------------------------------------------

namespace KDoth

namespace KFilePathHead

open Command MemoryCall StringCall KStringHead StringView

variable {s : StringMemory} {source : AddressSource}
variable {E : Fault → StringMemory → Prop}
variable {path : KFilePathHead} {isAbsolute : Bool}
variable {parts : List (List UInt8)}
variable {str : Nat} {v : StringView}

theorem wp_kAssert_false
    {Q : Unit → StringMemory → Prop}
    (hRefuses : source.Refuses) :
    wp (kAssert false) Q (Unlucky source) s :=
  .inr ⟨hRefuses, _, rfl⟩

theorem wp_kAssert_true
    {Q : Unit → StringMemory → Prop} :
    wp (kAssert true) Q E s ↔ Q () s :=
  Iff.rfl

/- An item is retained and put at the end. -/
theorem wp_addObject
    {obj : Nat}
    {string : KStringHead}
    {components : List Nat}
    {Q : List Nat × Bool → StringMemory → Prop}
    (hLive : s.cell obj = some (.object string))
    (hRefused :
      ∀ s', source.Refuses → Q (components, false) s')
    (hAdded :
      ∀ s',
        s'.cell =
            Function.update s.cell obj
              (some
                (.object
                  { string with
                    refCount := string.refCount + 1 })) →
          Q (components ++ [obj], true) s') :
    wp (addObject source components (some obj)) Q E s := by
  simp only [addObject, ask, wp_bind, wp_get, wp_set, wp_pure]
  cases hAnswer :
      source s.process.requests.length .listEntry with
  | none => exact hRefused _ ⟨_, _, hAnswer⟩
  | some a =>
      have hStill :
          (s.setProcess
            (s.process.requested .listEntry)).cell obj =
            some (.object string) := hLive
      simp only [wp_bind, wp_retain hStill]
      exact hAdded _ rfl

/- A new path has no components. -/
theorem wp_alloc
    {Q : Option KFilePathHead → StringMemory → Prop}
    (hNull : ∀ s', source.Refuses → Q none s')
    (hMade :
      ∀ s',
        s'.cell = s.cell → Q (some ⟨[], false⟩) s') :
    wp (alloc source) Q (Unlucky source) s := by
  simp only [alloc, ask, wp_bind, wp_get, wp_set, wp_pure]
  cases hPath :
      source s.process.requests.length
        (.objectNew .kFilePath) with
  | none => exact hNull _ ⟨_, _, hPath⟩
  | some a =>
      simp only [wp_bind, wp_get, wp_set, wp_pure]
      generalize hList : source _ (.objectNew .kList) = list
      cases list with
      | none => exact wp_kAssert_false ⟨_, _, hList⟩
      | some b => exact hMade _ rfl

/-
  A slice inside the string becomes a component. The string
  that is made for it is kept by the list alone.
-/
theorem wp_addSlice
    {start count : Nat}
    {Q : KFilePathHead → StringMemory → Prop}
    (hString : Shows s.cell str v)
    (hStores : Stores s.cell path isAbsolute parts)
    (hInside : start + count ≤ v.bytes.length)
    (hPost :
      ∀ path' s',
        Extends s.cell s'.cell →
          Stores s'.cell path' isAbsolute
              (parts ++ [(v.bytes.drop start).take count]) →
            Q path' s') :
    wp (addSlice source v.head path start count) Q
      (Unlucky source) s := by
  have hReadable := hString.readable hInside
  have hCount :
      ((v.bytes.drop start).take count).length = count := by
    rw [List.length_take, List.length_drop]
    omega
  have hSlice :
      slice v.head start count =
        pure (.buffer (some v.buffer) start) :=
    if_pos hInside
  unfold addSlice
  rw [hSlice, pure_bind]
  generalize (v.bytes.drop start).take count = part at *
  subst hCount
  rw [wp_bind]
  apply wp_newWithData Unlucky.occupied hReadable
  · exact Refused.unlucky
  · intro s₁ hRefused _
    simp only [addObject, wp_bind, wp_pure]
    exact wp_kAssert_false hRefused.refuses
  · intro _ a s₁ w hMade hOnce hBytes _
    have hObject := hMade.shows.object
    simp only [wp_bind]
    apply wp_addObject hObject
    · intro s₂ hRefuses
      exact wp_kAssert_false hRefuses
    · intro s₂ hCell₂
      have hLive₂ :
          s₂.cell a =
            some
              (.object
                { w.head with
                  refCount := w.head.refCount + 1 }) := by
        rw [hCell₂, Function.update_self]
      have hMore : w.head.refCount + 1 ≠ 1 := by
        change w.refCount + 1 ≠ 1
        omega
      simp only [wp_kAssert_true, releaseOrNull,
        wp_release_more hLive₂ hMore, wp_pure]
      have hCell :
          (s₂.setCell a
              (some
                (.object
                  { w.head with
                    refCount :=
                      w.head.refCount + 1 - 1 }))).cell =
            s₁.cell := by
        rw [Memory.setCell_cell, hCell₂, Function.update_idem,
          Nat.add_sub_cancel, ← hObject,
          Function.update_eq_self]
      apply hPost
      · rw [hCell]
        exact hMade.extends
      · rw [hCell]
        exact
          (hStores.mono hMade.extends).append
            ⟨w, hMade.shows, hBytes⟩

end KFilePathHead

end KDoth

------------------------------------------------------------
-- Scanning A String
------------------------------------------------------------

namespace KDoth

namespace KFilePathHead

open Command MemoryCall StringCall KStringHead StringView
open KFilePath (isSeparator)
open Segments (Scanning ending)

variable {s : StringMemory} {source : AddressSource}
variable {E : Fault → StringMemory → Prop}
variable {path : KFilePathHead} {start i : Nat}
variable {str : Nat} {v : StringView}

/-
  After `i` bytes of a text: `start` is where the run begins
  that may go on, and the path has the segments before it.
-/
def Scanned
    (cell : Nat → Option StringCell)
    (text : List UInt8)
    (i : Nat)
    (path : KFilePathHead)
    (start : Nat) : Prop :=
  ∃ before run parts,
    Scanning isSeparator text i before run parts ∧
      start = before.length ∧
      Stores cell path ((text.take i).head?.any isSeparator)
        parts

/- A byte of the string is read. -/
theorem wp_byteAt
    {Q : UInt8 → StringMemory → Prop}
    (hString : Shows s.cell str v)
    (hi : i < v.bytes.length) :
    wp (byteAt v.head i) Q E s ↔ Q v.bytes[i] s := by
  have hByte :
      ((v.bytes.drop i).take 1).map some =
        [v.bytes[i]].map some := by
    rw [List.drop_eq_getElem_cons hi]
    rfl
  have hReadable :
      (DataPointer.buffer (some v.buffer) i).Readable s.cell 1
        ([v.bytes[i]].map some) := by
    rw [← hByte]
    exact hString.readable hi
  simp only [byteAt, wp_bind]
  have hFetch :=
    wp_fetch (E := E)
      (Q := fun data s =>
        wp (defined data)
          (fun bytes s => wp (pure (bytes.headD 0)) Q E s) E s)
      hReadable Nat.one_ne_zero
  exact hFetch.trans wp_defined

/- The first byte decides whether the path is absolute. -/
theorem head?_take_succ
    {text : List UInt8}
    (hi : i < text.length) :
    (text.take (i + 1)).head?.any isSeparator =
      if i = 0 && isSeparator text[i] then true
      else (text.take i).head?.any isSeparator := by
  cases text with
  | nil => cases hi
  | cons byte rest =>
      cases i with
      | zero => cases hSep : isSeparator byte <;> simp [hSep]
      | succ i => simp

/- One step of the loop. -/
theorem wp_scanByte
    (hString : Shows s.cell str v)
    (hi : i < v.bytes.length)
    (hScanned : Scanned s.cell v.bytes i path start) :
    wp (scanByte source v.head (path, start) i)
      (fun r s' =>
        Extends s.cell s'.cell ∧
          Scanned s'.cell v.bytes (i + 1) r.1 r.2)
      (Unlucky source) s := by
  rcases hScanned with
    ⟨before, run, parts, hScanning, rfl, hStores⟩
  have hLength := hScanning.length (Nat.le_of_lt hi)
  simp only [scanByte, wp_bind, wp_byteAt hString hi]
  have hFlag := head?_take_succ hi
  generalize hPath :
    (if i = 0 && isSeparator v.bytes[i] then
      { path with isAbsolute := true }
    else path) = path₁
  have hStores₁ :
      Stores s.cell path₁
        ((v.bytes.take (i + 1)).head?.any isSeparator)
        parts := by
    rw [hFlag, ← hPath]
    split
    · exact ⟨rfl, hStores.components⟩
    · exact hStores
  cases hSep : isSeparator v.bytes[i] with
  | false =>
      exact
        ⟨Extends.refl _, before, run ++ [v.bytes[i]], parts,
          hScanning.joins hi hSep, rfl, hStores₁⟩
  | true =>
      have hCount : i - before.length = run.length := by omega
      have hEnds := hScanning.ends hi hSep
      have hNext :
          i + 1 = (before ++ run ++ [v.bytes[i]]).length := by
        rw [List.length_append, List.length_append,
          List.length_singleton]
        omega
      simp only [Bool.not_true, Bool.false_eq_true,
        if_false, hCount]
      by_cases hEmpty : run = []
      · have hZero : ¬ run.length > 0 := by
          rw [hEmpty]
          exact Nat.lt_irrefl 0
        rw [if_neg hZero]
        rw [ending, if_pos hEmpty, List.append_nil] at hEnds
        exact
          ⟨Extends.refl _, _, [], parts, hEnds, hNext,
            hStores₁⟩
      · have hSome : run.length > 0 :=
          List.length_pos_iff.mpr hEmpty
        rw [if_pos hSome, wp_bind]
        rw [ending, if_neg hEmpty] at hEnds
        apply wp_addSlice hString hStores₁
        · omega
        · intro path₂ s₂ hExtends hStores₂
          rw [hScanning.slice] at hStores₂
          exact
            ⟨hExtends, _, [], _, hEnds, hNext, hStores₂⟩

/- The loop, by induction on the bytes that it has read. -/
theorem wp_scan
    (hString : Shows s.cell str v) :
    wp
      ((List.range v.head.size).foldlM
        (scanByte source v.head) (⟨[], false⟩, 0))
      (fun r s' =>
        Extends s.cell s'.cell ∧
          Scanned s'.cell v.bytes v.bytes.length r.1 r.2)
      (Unlucky source) s := by
  let Inv (i : Nat)
      (r : KFilePathHead × Nat)
      (s' : StringMemory) : Prop :=
    Extends s.cell s'.cell ∧ Scanned s'.cell v.bytes i r.1 r.2
  apply wp_foldRange Inv
  · intro i r s₁ hi hInv
    apply wp_imp
      (wp_scanByte (hString.mono hInv.1) hi hInv.2)
    intro r' s₂ hNext
    exact ⟨hInv.1.trans hNext.1, hNext.2⟩
  · exact
      ⟨Extends.refl _, [], [], [], Scanning.start _, rfl, rfl,
        .nil⟩

/- The loop scans the string, and a last run is added. -/
theorem wp_newWithString
    (hString : Shows s.cell str v) :
    wp (newWithString source (some str))
      (fun r s' =>
        Extends s.cell s'.cell ∧
          ∃ path,
            r = some path ∧
              Stores s'.cell path
                (v.bytes.head?.any isSeparator)
                (Segments.segments isSeparator v.bytes))
      (Unlucky source) s := by
  simp only [newWithString, wp_bind]
  apply wp_alloc
  · intro _ hRefuses
    exact .inr ⟨hRefuses, _, rfl⟩
  intro s₁ hCell₁
  have hString₁ : Shows s₁.cell str v := hCell₁ ▸ hString
  simp only [wp_bind, wp_loadObject hString₁.object]
  apply wp_imp (wp_scan hString₁)
  rintro ⟨path, start⟩ s₂ ⟨hExtends, hScanned⟩
  rcases hScanned with
    ⟨before, run, parts, hScanning, hStart, hStores⟩
  change start = before.length at hStart
  subst hStart
  rw [hCell₁] at hExtends
  have hString₂ := hString.mono hExtends
  have hLength := hScanning.length (Nat.le_refl _)
  have hFinish := hScanning.finish
  rw [List.take_length] at hStores
  change wp (if before.length < v.bytes.length then _ else _) _ _ _
  by_cases hEmpty : run = []
  · have hDone : ¬ before.length < v.bytes.length := by
      rw [hEmpty, List.length_nil] at hLength
      omega
    rw [if_neg hDone, wp_pure]
    rw [ending, if_pos hEmpty, List.append_nil] at hFinish
    exact ⟨hExtends, path, rfl, hFinish ▸ hStores⟩
  · have hSome := List.length_pos_iff.mpr hEmpty
    have hMore : before.length < v.bytes.length := by omega
    have hCount :
        v.head.size - before.length = run.length := by
      change v.bytes.length - before.length = run.length
      omega
    rw [if_pos hMore, hCount, wp_bind]
    rw [ending, if_neg hEmpty] at hFinish
    apply wp_addSlice hString₂ hStores
    · omega
    · intro path' s₃ hExtends' hStores'
      rw [hScanning.slice, hFinish] at hStores'
      exact ⟨hExtends.trans hExtends', path', rfl, hStores'⟩

end KFilePathHead

end KDoth

------------------------------------------------------------
-- Exactness
------------------------------------------------------------

namespace KDoth

namespace KFilePathHead

open Command StringView
open KFilePath (isSeparator slash backslash)
open Segments (AreRuns)

/- What it is for the first byte to be a separator. -/
theorem any_isSeparator_iff
    (text : List UInt8) :
    text.head?.any isSeparator = true ↔
      ∃ byte rest,
        text = byte :: rest ∧
          (byte = slash ∨ byte = backslash) := by
  cases text with
  | nil => simp
  | cons byte rest => simp [isSeparator]

/-
  Parsing a string makes a path of the maximal runs of its
  bytes without separators, in order. The path is absolute if
  the first byte is a separator. A slice outside the string
  would be a fault, and the call returns.
-/
theorem parsing_exact
    (source : AddressSource)
    (s : StringMemory)
    (str : Nat)
    (v : StringView)
    (hString : Shows s.cell str v)
    (hGranted : ¬ source.Refuses)
    (hFresh :
      FreshAnswers (newWithString source (some str)) s) :
    Returns (newWithString source (some str)) s
      (fun r s' =>
        ∃ path pieces,
          r = some path ∧
            List.Forall₂ (Holds s'.cell) path.components
              pieces ∧
            AreRuns isSeparator v.bytes pieces ∧
            (path.isAbsolute = true ↔
              ∃ byte rest,
                v.bytes = byte :: rest ∧
                  (byte = slash ∨ byte = backslash))) := by
  have hReturns :=
    hFresh.returns hGranted (wp_newWithString hString)
  apply hReturns.mono
  rintro r s' ⟨_, path, hPath, hStores⟩
  refine
    ⟨path, _, hPath, hStores.components,
      Segments.areRuns_segments _, ?_⟩
  rw [hStores.isAbsolute]
  exact any_isSeparator_iff v.bytes

/- A string of a letter and a separator, in its block. -/
def trailing : StringView where
  refCount := 1
  buffer := 1
  bytes := [97, 47]
  extra := []

/- The string is at 0 and its block at 1. -/
def trailingMemory : StringMemory where
  process := Process.initial
  cell a :=
    match a with
    | 0 => some (.object trailing.head)
    | 1 =>
        some
          (.block ⟨trailing.bytes.map some, by decide⟩)
    | _ => none

theorem parsing_exact_trailing :
    Returns
      (newWithString (.counting 2) (some 0))
      trailingMemory
      (fun r s' =>
        ∃ path pieces,
          r = some path ∧
            List.Forall₂ (Holds s'.cell) path.components
              pieces ∧
            AreRuns isSeparator [97, 47] pieces ∧
            (path.isAbsolute = true ↔
              ∃ byte rest,
                [97, 47] = byte :: rest ∧
                  (byte = slash ∨ byte = backslash))) :=
  parsing_exact (.counting 2) trailingMemory 0 trailing
    ⟨rfl, _, rfl, rfl⟩ (AddressSource.counting_grants 2)
    trivial

end KFilePathHead

end KDoth
