import Mathlib.Algebra.GroupWithZero.Nat
import Mathlib.Algebra.Order.BigOperators.Group.List
import Mathlib.Algebra.Order.Group.Nat

/-
  The segments of a list: its maximal nonempty runs without
  separators, over `List.splitOnP`.

  Key definitions include:
    * `Segments.IsSegment`
    * `Segments.segments`
    * `Segments.IsRun`
    * `Segments.AreRuns`
    * `Segments.Scanning`

  Key theorems include:
    * `Segments.isSegment_of_mem`
    * `Segments.areRuns_segments`
    * `Segments.segments_intercalate`
    * `Segments.length_intercalate_segments`
-/

------------------------------------------------------------
-- Segments
------------------------------------------------------------

namespace KDoth

namespace Segments

variable {α : Type} (isSep : α → Bool)

/- No element is a separator. -/
def Free (l : List α) : Prop :=
  ∀ x ∈ l, isSep x = false

/- A nonempty list without separators. -/
structure IsSegment (l : List α) : Prop where
  nonempty : l ≠ []
  free : Free isSep l

/- The nonempty pieces between separators, in order. -/
def segments (l : List α) : List (List α) :=
  (l.splitOnP isSep).filter (fun piece => !piece.isEmpty)

end Segments

end KDoth

------------------------------------------------------------
-- Splitting
------------------------------------------------------------

namespace KDoth

namespace Segments

variable {α : Type} {isSep : α → Bool}

@[simp] theorem segments_nil :
    segments isSep ([] : List α) = [] := by
  simp [segments]

/- A separator splits the segments. -/
theorem segments_append_cons
    (l r : List α)
    {sep : α}
    (hSep : isSep sep = true) :
    segments isSep (l ++ sep :: r) =
      segments isSep l ++ segments isSep r := by
  unfold segments
  rw [List.splitOnP_append_cons l r hSep, List.filter_append]

/- A leading separator adds no segment. -/
theorem segments_cons
    (l : List α)
    {sep : α}
    (hSep : isSep sep = true) :
    segments isSep (sep :: l) = segments isSep l := by
  have hSplit := segments_append_cons [] l hSep
  rw [segments_nil, List.nil_append, List.nil_append] at hSplit
  exact hSplit

/- Without separators there is at most one segment. -/
theorem segments_of_free
    {l : List α}
    (hFree : Free isSep l) :
    segments isSep l = if l = [] then [] else [l] := by
  unfold segments
  rw [List.splitOnP_eq_singleton hFree]
  by_cases hNil : l = []
  · simp [hNil]
  · simp [hNil]

theorem segments_of_isSegment
    {l : List α}
    (hSegment : IsSegment isSep l) :
    segments isSep l = [l] := by
  rw [segments_of_free hSegment.free, if_neg hSegment.nonempty]

/- By induction on the list: no piece has a separator. -/
theorem free_of_mem_splitOnP
    (l : List α) :
    ∀ piece ∈ l.splitOnP isSep, Free isSep piece := by
  induction l with
  | nil =>
      intro piece hPiece
      have hNil : piece = [] := by simpa using hPiece
      rw [hNil]
      intro x hx
      cases hx
  | cons x l ih =>
      intro piece hPiece
      rw [List.splitOnP_cons_eq_if_modifyHead] at hPiece
      by_cases hSep : isSep x = true
      · rw [if_pos hSep] at hPiece
        rcases List.mem_cons.mp hPiece with hNil | hRest
        · rw [hNil]
          intro y hy
          cases hy
        · exact ih piece hRest
      · -- The element joins the first of the pieces.
        rw [if_neg hSep] at hPiece
        rcases List.exists_cons_of_ne_nil
          (List.splitOnP_ne_nil isSep l) with
          ⟨first, rest, hPieces⟩
        rw [hPieces, List.modifyHead_cons] at hPiece
        rw [hPieces] at ih
        rcases List.mem_cons.mp hPiece with hFirst | hRest
        · rw [hFirst]
          intro y hy
          rcases List.mem_cons.mp hy with hHead | hTail
          · rw [hHead]
            exact Bool.not_eq_true _ ▸ hSep
          · exact ih first List.mem_cons_self y hTail
        · exact ih piece (List.mem_cons_of_mem _ hRest)

theorem isSegment_of_mem
    {l piece : List α}
    (hPiece : piece ∈ segments isSep l) :
    IsSegment isSep piece := by
  rcases List.mem_filter.mp hPiece with ⟨hSplit, hNonempty⟩
  constructor
  · intro hNil
    simp [hNil] at hNonempty
  · exact free_of_mem_splitOnP l piece hSplit

end Segments

end KDoth

------------------------------------------------------------
-- Maximal Runs
------------------------------------------------------------

namespace KDoth

namespace Segments

variable {α : Type} (isSep : α → Bool)

/-
  A segment of the list from a position on, between the ends
  of the list or separators on both sides.
-/
def IsRun (l : List α) (start : Nat) (run : List α) : Prop :=
  ∃ before after,
    l = before ++ run ++ after ∧
      before.length = start ∧
      IsSegment isSep run ∧
      (∀ x, before.getLast? = some x → isSep x = true) ∧
      ∀ x, after.head? = some x → isSep x = true

/- All the maximal runs of the list and no others, in order. -/
def AreRuns (l : List α) (pieces : List (List α)) : Prop :=
  ∃ runs : List (Nat × List α),
    runs.map Prod.snd = pieces ∧
      runs.Pairwise (fun r s => r.1 < s.1) ∧
      ∀ start run,
        (start, run) ∈ runs ↔ IsRun isSep l start run

variable {isSep}

/-
  A list has no separators, or a first one that ends a list
  without any.
-/
theorem split_induction
    {motive : List α → Prop}
    (hFree : ∀ l, Free isSep l → motive l)
    (hSplit :
      ∀ front sep rest,
        Free isSep front → isSep sep = true →
          motive rest → motive (front ++ sep :: rest))
    (l : List α) :
    motive l := by
  suffices hAll :
      ∀ front, Free isSep front → motive (front ++ l) by
    simpa using hAll [] nofun
  induction l with
  | nil =>
      intro front hFront
      rw [List.append_nil]
      exact hFree front hFront
  | cons x rest ih =>
      intro front hFront
      by_cases hSep : isSep x = true
      · apply hSplit front x rest hFront hSep
        simpa using ih [] nofun
      · have hLonger : Free isSep (front ++ [x]) := by
          intro y hy
          rcases List.mem_append.mp hy with hOld | hNew
          · exact hFront y hOld
          · rw [List.mem_singleton.mp hNew]
            exact Bool.not_eq_true _ ▸ hSep
        have hRest := ih (front ++ [x]) hLonger
        rwa [List.append_assoc, List.singleton_append] at hRest

/- Without separators the run is the whole list. -/
theorem isRun_of_free
    {l run : List α}
    {start : Nat}
    (hFree : Free isSep l) :
    IsRun isSep l start run ↔
      l ≠ [] ∧ start = 0 ∧ run = l := by
  constructor
  · rintro ⟨before, after, rfl, rfl, hRun, hBefore, hAfter⟩
    have hNone : ∀ x ∈ before ++ run ++ after,
        isSep x ≠ true := by
      intro x hx
      rw [hFree x hx]
      nofun
    have hFirst : before = [] := by
      rw [← List.getLast?_eq_none_iff]
      cases hLast : before.getLast? with
      | none => rfl
      | some x =>
          have hMem := List.mem_of_getLast? hLast
          exact absurd (hBefore x hLast) (hNone x (by simp [hMem]))
    have hSecond : after = [] := by
      rw [← List.head?_eq_none_iff]
      cases hHead : after.head? with
      | none => rfl
      | some x =>
          have hMem := List.mem_of_head? hHead
          exact absurd (hAfter x hHead) (hNone x (by simp [hMem]))
    rw [hFirst, hSecond]
    simp [hRun.nonempty]
  · rintro ⟨hNonempty, rfl, rfl⟩
    exact ⟨[], [], by simp, rfl, ⟨hNonempty, hFree⟩, nofun, nofun⟩

/- A run in front of a separator. -/
theorem IsRun.append_cons
    {front run : List α}
    {sep : α}
    {start : Nat}
    (hFront : IsRun isSep front start run)
    (hSep : isSep sep = true)
    (rest : List α) :
    IsRun isSep (front ++ sep :: rest) start run := by
  rcases hFront with
    ⟨before, after, rfl, rfl, hRun, hBefore, hAfter⟩
  refine
    ⟨before, after ++ sep :: rest, by simp, rfl, hRun,
      hBefore, ?_⟩
  intro x hx
  cases after with
  | nil =>
      cases hx
      exact hSep
  | cons y after =>
      cases hx
      exact hAfter x rfl

/- A run behind a separator. -/
theorem IsRun.cons_append
    {rest run : List α}
    {sep : α}
    {later : Nat}
    (hRest : IsRun isSep rest later run)
    (hSep : isSep sep = true)
    (front : List α) :
    IsRun isSep (front ++ sep :: rest)
      (later + (front.length + 1)) run := by
  rcases hRest with
    ⟨before, after, rfl, rfl, hRun, hBefore, hAfter⟩
  refine
    ⟨front ++ sep :: before, after, by simp, ?_, hRun, ?_,
      hAfter⟩
  · rw [List.length_append, List.length_cons]
    omega
  · intro x hx
    rw [List.getLast?_append, List.getLast?_cons] at hx
    cases hLast : before.getLast? with
    | none =>
        rw [hLast] at hx
        cases hx
        exact hSep
    | some y =>
        rw [hLast] at hx
        cases hx
        exact hBefore y hLast

/- No run goes over a separator. -/
theorem IsRun.front_or_rest
    {front rest run : List α}
    {sep : α}
    {start : Nat}
    (hWhole : IsRun isSep (front ++ sep :: rest) start run)
    (hSep : isSep sep = true) :
    IsRun isSep front start run ∨
      ∃ later,
        start = later + (front.length + 1) ∧
          IsRun isSep rest later run := by
  rcases hWhole with
    ⟨before, after, hEq, rfl, hRun, hBefore, hAfter⟩
  have hNot : sep ∉ run := by
    intro hMem
    rw [hRun.free sep hMem] at hSep
    cases hSep
  rw [List.append_assoc] at hEq
  rcases List.append_eq_append_iff.mp hEq with
    ⟨more, hMore, hTail⟩ | ⟨more, hMore, hTail⟩
  · -- The run begins behind the separator.
    cases more with
    | nil =>
        rw [List.nil_append] at hTail
        cases run with
        | nil => exact absurd rfl hRun.nonempty
        | cons x run =>
            cases hTail
            exact absurd List.mem_cons_self hNot
    | cons x more =>
        cases hTail
        right
        refine
          ⟨more.length, ?_, more, after, ?_, rfl, hRun, ?_,
            hAfter⟩
        · rw [hMore, List.length_append, List.length_cons]
          omega
        · rw [List.append_assoc]
          rfl
        · intro y hy
          apply hBefore y
          rw [hMore, List.getLast?_append, List.getLast?_cons,
            hy]
          rfl
  · -- The run begins in front of it, and ends there.
    left
    rcases List.append_eq_append_iff.mp hTail with
      ⟨tail, hInner, hOuter⟩ | ⟨tail, hInner, hOuter⟩
    · refine
        ⟨before, tail, ?_, rfl, hRun, hBefore, ?_⟩
      · rw [hMore, hInner, List.append_assoc]
      · intro y hy
        apply hAfter y
        rw [hOuter, List.head?_append, hy]
        rfl
    · cases tail with
      | nil =>
          rw [List.append_nil] at hInner
          refine
            ⟨before, [], ?_, rfl, hRun, hBefore, nofun⟩
          rw [hMore, hInner, List.append_nil]
      | cons x tail =>
          cases hOuter
          exfalso
          apply hNot
          rw [hInner]
          simp

/- A run lies in front of a separator or behind it. -/
theorem isRun_append_cons
    {front rest run : List α}
    {sep : α}
    {start : Nat}
    (hSep : isSep sep = true) :
    IsRun isSep (front ++ sep :: rest) start run ↔
      IsRun isSep front start run ∨
        ∃ later,
          start = later + (front.length + 1) ∧
            IsRun isSep rest later run := by
  constructor
  · intro hWhole
    exact hWhole.front_or_rest hSep
  · rintro (hFront | ⟨later, rfl, hRest⟩)
    · exact hFront.append_cons hSep rest
    · exact hRest.cons_append hSep front

/- The segments of a list are its maximal runs. -/
theorem areRuns_segments (l : List α) :
    AreRuns isSep l (segments isSep l) := by
  induction l using @split_induction _ isSep with
  | hFree l hFree =>
      rw [segments_of_free hFree]
      by_cases hNil : l = []
      · rw [if_pos hNil]
        refine ⟨[], rfl, .nil, ?_⟩
        intro start run
        rw [isRun_of_free hFree]
        simp [hNil]
      · rw [if_neg hNil]
        refine ⟨[(0, l)], rfl, List.pairwise_singleton _ _, ?_⟩
        intro start run
        rw [isRun_of_free hFree]
        simp [hNil]
  | hSplit front sep rest hFront hSep ih =>
      rcases ih with ⟨runs, hPieces, hOrder, hRuns⟩
      rw [segments_append_cons _ _ hSep,
        segments_of_free hFront, ← hPieces]
      let shifted :=
        runs.map fun r => (r.1 + (front.length + 1), r.2)
      have hShifted :
          shifted.map Prod.snd = runs.map Prod.snd := by
        simp [shifted]
      have hLater : shifted.Pairwise (fun r s => r.1 < s.1) := by
        rw [List.pairwise_map]
        apply hOrder.imp
        intro r s hLess
        change r.1 + (front.length + 1) < s.1 + (front.length + 1)
        omega
      have hMem :
          ∀ start run,
            (start, run) ∈ shifted ↔
              ∃ later,
                start = later + (front.length + 1) ∧
                  IsRun isSep rest later run := by
        intro start run
        constructor
        · intro hIn
          rcases List.mem_map.mp hIn with ⟨⟨later, r⟩, hr, hEq⟩
          cases hEq
          exact ⟨later, rfl, (hRuns later r).mp hr⟩
        · rintro ⟨later, rfl, hRun⟩
          exact
            List.mem_map.mpr
              ⟨(later, run), (hRuns later run).mpr hRun, rfl⟩
      by_cases hNil : front = []
      · refine ⟨shifted, ?_, hLater, ?_⟩
        · rw [hShifted, if_pos hNil, List.nil_append]
        · intro start run
          rw [hMem, isRun_append_cons hSep,
            isRun_of_free hFront]
          simp [hNil]
      · refine ⟨(0, front) :: shifted, ?_, ?_, ?_⟩
        · rw [List.map_cons, hShifted, if_neg hNil]
          rfl
        · refine List.pairwise_cons.mpr ⟨?_, hLater⟩
          intro r hr
          rcases List.mem_map.mp hr with ⟨q, _, hEq⟩
          rw [← hEq]
          exact Nat.succ_pos _
        · intro start run
          rw [List.mem_cons, hMem, isRun_append_cons hSep,
            isRun_of_free hFront]
          simp [hNil]

/- A segment has only elements of the list. -/
theorem mem_of_mem_segments
    {l piece : List α}
    {x : α}
    (hPiece : piece ∈ segments isSep l)
    (hx : x ∈ piece) :
    x ∈ l := by
  rcases @areRuns_segments _ isSep l with
    ⟨runs, hPieces, _, hRuns⟩
  rw [← hPieces] at hPiece
  rcases List.mem_map.mp hPiece with ⟨⟨start, run⟩, hRun, rfl⟩
  rcases (hRuns start run).mp hRun with ⟨before, after, hl, _⟩
  rw [hl]
  exact
    List.mem_append_left after (List.mem_append_right before hx)

end Segments

end KDoth

------------------------------------------------------------
-- Scanning
------------------------------------------------------------

namespace KDoth

namespace Segments

variable {α : Type} {isSep : α → Bool}
variable {text before run : List α} {parts : List (List α)}
variable {i : Nat}

/-
  After `i` elements of a text, `parts` are the segments that
  have ended and `run` is the one that may go on.
-/
structure Scanning
    (isSep : α → Bool)
    (text : List α)
    (i : Nat)
    (before run : List α)
    (parts : List (List α)) : Prop where
  scanned : text.take i = before ++ run
  free : Free isSep run
  split :
    parts ++ segments isSep (run ++ text.drop i) =
      segments isSep text

/- The part that the run becomes where it ends. -/
def ending (run : List α) : List (List α) :=
  if run = [] then [] else [run]

theorem Scanning.start
    (text : List α) :
    Scanning isSep text 0 [] [] [] :=
  ⟨rfl, nofun, rfl⟩

theorem Scanning.length
    (hScanning : Scanning isSep text i before run parts)
    (hi : i ≤ text.length) :
    before.length + run.length = i := by
  have hLength := congrArg List.length hScanning.scanned
  rw [List.length_take, List.length_append] at hLength
  omega

/- The run is where it is in the text. -/
theorem Scanning.slice
    (hScanning : Scanning isSep text i before run parts) :
    (text.drop before.length).take run.length = run := by
  have hText : text = before ++ (run ++ text.drop i) := by
    rw [← List.append_assoc, ← hScanning.scanned,
      List.take_append_drop]
  rw [hText, List.drop_left, List.take_left]

/- An element that is no separator joins the run. -/
theorem Scanning.joins
    (hScanning : Scanning isSep text i before run parts)
    (hi : i < text.length)
    (hSep : isSep text[i] = false) :
    Scanning isSep text (i + 1) before (run ++ [text[i]])
      parts := by
  constructor
  · rw [List.take_add_one, List.getElem?_eq_getElem hi,
      hScanning.scanned, List.append_assoc]
    rfl
  · intro x hx
    rcases List.mem_append.mp hx with hOld | hNew
    · exact hScanning.free x hOld
    · rw [List.mem_singleton.mp hNew]
      exact hSep
  · rw [List.append_assoc, List.singleton_append,
      ← List.drop_eq_getElem_cons hi]
    exact hScanning.split

/- A separator ends the run. -/
theorem Scanning.ends
    (hScanning : Scanning isSep text i before run parts)
    (hi : i < text.length)
    (hSep : isSep text[i] = true) :
    Scanning isSep text (i + 1) (before ++ run ++ [text[i]]) []
      (parts ++ ending run) := by
  have hSegments := hScanning.split
  rw [List.drop_eq_getElem_cons hi,
    segments_append_cons _ _ hSep,
    segments_of_free hScanning.free, ← List.append_assoc]
    at hSegments
  constructor
  · rw [List.take_add_one, List.getElem?_eq_getElem hi,
      hScanning.scanned, List.append_nil]
    rfl
  · exact nofun
  · exact hSegments

/- At the end of the text the run ends as well. -/
theorem Scanning.finish
    (hScanning :
      Scanning isSep text text.length before run parts) :
    parts ++ ending run = segments isSep text := by
  have hSegments := hScanning.split
  rw [List.drop_length, List.append_nil,
    segments_of_free hScanning.free] at hSegments
  exact hSegments

end Segments

end KDoth

------------------------------------------------------------
-- Joining
------------------------------------------------------------

namespace KDoth

namespace Segments

variable {α : Type} {isSep : α → Bool}

/- By induction on the pieces: splitting undoes joining. -/
theorem segments_intercalate
    {pieces : List (List α)}
    {sep : α}
    (hSep : isSep sep = true)
    (hPieces : ∀ piece ∈ pieces, IsSegment isSep piece) :
    segments isSep ([sep].intercalate pieces) = pieces := by
  induction pieces with
  | nil => simp
  | cons piece rest ih =>
      have hPiece := hPieces piece List.mem_cons_self
      have hRest :
          ∀ other ∈ rest, IsSegment isSep other :=
        fun other hOther =>
          hPieces other (List.mem_cons_of_mem _ hOther)
      cases rest with
      | nil =>
          rw [List.intercalate_singleton]
          exact segments_of_isSegment hPiece
      | cons next rest =>
          rw [List.intercalate_cons_cons, List.append_assoc,
            List.singleton_append,
            segments_append_cons _ _ hSep,
            segments_of_isSegment hPiece, ih hRest,
            List.singleton_append]

/- An element is the separator or in a piece. -/
theorem mem_of_mem_intercalate
    {pieces : List (List α)}
    {sep x : α}
    (hx : x ∈ [sep].intercalate pieces) :
    x = sep ∨ ∃ piece ∈ pieces, x ∈ piece := by
  induction pieces with
  | nil => cases hx
  | cons piece rest ih =>
      have hTail
          (hMem : x ∈ [sep].intercalate rest) :
          x = sep ∨ ∃ p ∈ piece :: rest, x ∈ p := by
        rcases ih hMem with hSep | ⟨p, hp, hMem⟩
        · exact .inl hSep
        · exact .inr ⟨p, List.mem_cons_of_mem _ hp, hMem⟩
      have hHead (hMem : x ∈ piece) :
          x = sep ∨ ∃ p ∈ piece :: rest, x ∈ p :=
        .inr ⟨piece, List.mem_cons_self, hMem⟩
      cases rest with
      | nil =>
          rw [List.intercalate_singleton] at hx
          exact hHead hx
      | cons next rest =>
          rw [List.intercalate_cons_cons] at hx
          rcases List.mem_append.mp hx with hFirst | hTail'
          · rcases List.mem_append.mp hFirst with hMem | hSep
            · exact hHead hMem
            · exact .inl (List.mem_singleton.mp hSep)
          · exact hTail hTail'

/- The elements of the pieces and of the separators. -/
theorem length_intercalate
    (pieces : List (List α))
    (sep : α) :
    ([sep].intercalate pieces).length =
      (pieces.map List.length).sum + (pieces.length - 1) := by
  induction pieces with
  | nil => rfl
  | cons piece rest ih =>
      cases rest with
      | nil => simp
      | cons next rest =>
          rw [List.intercalate_cons_cons, List.length_append,
            List.length_append, ih]
          simp only [List.map_cons, List.sum_cons,
            List.length_cons, List.length_nil]
          omega

/- The pieces have the elements that are not separators. -/
theorem length_splitOnP
    (isSep : α → Bool)
    (l : List α) :
    ((l.splitOnP isSep).map List.length).sum +
        (l.splitOnP isSep).length =
      l.length + 1 := by
  induction l with
  | nil => simp
  | cons x l ih =>
      rw [List.splitOnP_cons_eq_if_modifyHead]
      by_cases hSep : isSep x = true
      · rw [if_pos hSep]
        simp only [List.map_cons, List.sum_cons,
          List.length_nil, List.length_cons]
        omega
      · rw [if_neg hSep]
        rcases List.exists_cons_of_ne_nil
          (List.splitOnP_ne_nil isSep l) with
          ⟨first, rest, hPieces⟩
        rw [hPieces] at ih ⊢
        simp only [List.modifyHead_cons, List.map_cons,
          List.sum_cons, List.length_cons] at ih ⊢
        omega

/- Joining the segments makes the list no longer. -/
theorem length_intercalate_segments
    (isSep : α → Bool)
    (l : List α)
    (sep : α) :
    ([sep].intercalate (segments isSep l)).length ≤
      l.length := by
  have hSplit := length_splitOnP isSep l
  have hSub :
      (segments isSep l).Sublist (l.splitOnP isSep) :=
    List.filter_sublist
  have hLengths :
      ((segments isSep l).map List.length).sum ≤
        ((l.splitOnP isSep).map List.length).sum :=
    (hSub.map List.length).sum_le_sum
      (fun _ _ => Nat.zero_le _)
  have hCount := hSub.length_le
  have hPos :=
    List.length_pos_iff.mpr (List.splitOnP_ne_nil isSep l)
  rw [length_intercalate]
  omega

end Segments

end KDoth
