import KDoth.Foundations.Segments

/-
  Path names over an alphabet with separators: what a file
  path stands for, apart from how it is stored.

  Key definitions include:
    * `Pathname`
    * `Pathname.parse`
    * `Pathname.render`
    * `Pathname.append`

  Key theorems include:
    * `Pathname.parse_render`
    * `Pathname.length_render_parse_le`
-/

------------------------------------------------------------
-- Path Names
------------------------------------------------------------

namespace KDoth

open Segments

/-
  Components are nonempty and have no separators, so that a
  path name can be read back from its text.
-/
@[ext]
structure Pathname {α : Type} (isSep : α → Bool) where
  isAbsolute : Bool
  components : List (List α)
  areSegments : ∀ c ∈ components, IsSegment isSep c

namespace Pathname

variable {α : Type} {isSep : α → Bool}

/- Read a path name from a text. -/
def parse
    (isSep : α → Bool)
    (text : List α) : Pathname isSep where
  isAbsolute := text.head?.any isSep
  components := segments isSep text
  areSegments _ hc := isSegment_of_mem hc

/- The text of a path name with one choice of separator. -/
def render
    (path : Pathname isSep)
    (sep : α) : List α :=
  (if path.isAbsolute then [sep] else []) ++
    [sep].intercalate path.components

/- The components of a second path follow those of a first. -/
def append
    (path other : Pathname isSep) : Pathname isSep where
  isAbsolute := path.isAbsolute
  components := path.components ++ other.components
  areSegments c hc := by
    rcases List.mem_append.mp hc with hFirst | hSecond
    · exact path.areSegments c hFirst
    · exact other.areSegments c hSecond

end Pathname

end KDoth

------------------------------------------------------------
-- Reading Back
------------------------------------------------------------

namespace KDoth

namespace Pathname

open Segments

variable {α : Type} {isSep : α → Bool}

/- A text without a leading separator is relative. -/
theorem head?_intercalate
    {sep : α}
    {components : List (List α)}
    (hSegments : ∀ c ∈ components, IsSegment isSep c) :
    ([sep].intercalate components).head?.any isSep = false := by
  cases components with
  | nil => rfl
  | cons c rest =>
      have hc := hSegments c List.mem_cons_self
      rcases List.exists_cons_of_ne_nil hc.nonempty with
        ⟨x, tail, hEq⟩
      have hFree : isSep x = false := by
        apply hc.free
        rw [hEq]
        exact List.mem_cons_self
      rw [hEq]
      cases rest with
      | nil => simpa using hFree
      | cons next rest =>
          rw [List.intercalate_cons_cons]
          simpa using hFree

/- A path name is read back from its text. -/
theorem parse_render
    (path : Pathname isSep)
    {sep : α}
    (hSep : isSep sep = true) :
    parse isSep (path.render sep) = path := by
  have hJoin := segments_intercalate hSep path.areSegments
  have hHead :
      ([sep].intercalate path.components).head?.any isSep =
        false :=
    head?_intercalate path.areSegments
  apply Pathname.ext
  · cases hAbsolute : path.isAbsolute with
    | true => simp [parse, render, hAbsolute, hSep]
    | false => simp [parse, render, hAbsolute, hHead]
  · cases hAbsolute : path.isAbsolute with
    | true =>
        simp only [parse, render, hAbsolute, if_true,
          List.singleton_append]
        rw [segments_cons _ hSep, hJoin]
    | false =>
        simp only [parse, render, hAbsolute,
          Bool.false_eq_true, if_false, List.nil_append]
        exact hJoin

/- Reading a text and writing it back makes it no longer. -/
theorem length_render_parse_le
    (isSep : α → Bool)
    (text : List α)
    (sep : α) :
    ((parse isSep text).render sep).length ≤ text.length := by
  have hJoined :=
    length_intercalate_segments isSep text sep
  cases text with
  | nil => simp [parse, render]
  | cons x rest =>
      by_cases hSep : isSep x = true
      · -- The leading separator is the one written first.
        have hRest :=
          length_intercalate_segments isSep rest sep
        simp only [parse, render, List.head?_cons,
          Option.any_some, hSep, if_true,
          List.singleton_append, List.length_cons]
        rw [segments_cons _ hSep]
        omega
      · simp only [parse, render, List.head?_cons,
          Option.any_some, hSep, Bool.false_eq_true, if_false,
          List.nil_append]
        exact hJoined

end Pathname

end KDoth
