import KDoth.Files.KFilePath
import KDoth.Files.Pathname
import KDoth.Strings.Bytes

/-
  What the calls on file paths compute when every allocation
  succeeds.

  Key definitions include:
    * `KFilePath.Stores`
    * `KFilePath.Represents`
    * `KFilePath.Scanned`

  Key theorems include:
    * `KFilePath.yields_newWithString`
    * `KFilePath.yields_addComponent`
    * `KFilePath.yields_newStringRepresentation`
-/

------------------------------------------------------------
-- Paths And Path Names
------------------------------------------------------------

namespace KDoth

namespace KFilePath

open Segments

/- The bytes of the components, in order. -/
def componentBytes (path : KFilePath) : List (List UInt8) :=
  path.components.items.map KString.bytes

/- The flag of the path and the bytes of its components. -/
structure Stores
    (path : KFilePath)
    (isAbsolute : Bool)
    (parts : List (List UInt8)) : Prop where
  isAbsolute : path.isAbsolute = isAbsolute
  stored : ∀ s ∈ path.components.items, s.Stored
  bytes : path.componentBytes = parts

/- The path stores a path name. -/
def Represents
    (path : KFilePath)
    (name : Pathname isSeparator) : Prop :=
  path.Stores name.isAbsolute name.components

/- Each component can be read and is a segment. -/
def WellFormed (path : KFilePath) : Prop :=
  ∀ s ∈ path.components.items,
    s.Stored ∧ IsSegment isSeparator s.bytes

/- A well-formed path represents a path name. -/
theorem WellFormed.exists_represents
    {path : KFilePath}
    (hFormed : path.WellFormed) :
    ∃ name, path.Represents name := by
  have hSegments :
      ∀ c ∈ path.componentBytes, IsSegment isSeparator c := by
    intro c hc
    rcases List.mem_map.mp hc with ⟨s, hs, hEq⟩
    rw [← hEq]
    exact (hFormed s hs).2
  exact
    ⟨⟨path.isAbsolute, path.componentBytes, hSegments⟩,
      ⟨rfl, fun s hs => (hFormed s hs).1, rfl⟩⟩

theorem Represents.wellFormed
    {path : KFilePath}
    {name : Pathname isSeparator}
    (hName : path.Represents name) :
    path.WellFormed := by
  intro s hs
  refine ⟨hName.stored s hs, name.areSegments s.bytes ?_⟩
  rw [← hName.bytes]
  exact List.mem_map_of_mem hs

/- A stored path with one more component. -/
theorem Stores.append
    {path : KFilePath}
    {isAbsolute : Bool}
    {parts : List (List UInt8)}
    {s : KString}
    {part : List UInt8}
    (hStores : path.Stores isAbsolute parts)
    (hHolds : s.Holds part)
    {components : KList KString}
    (hItems :
      components.items = path.components.items ++ [s]) :
    Stores { path with components := components } isAbsolute
      (parts ++ [part]) := by
  constructor
  · exact hStores.isAbsolute
  · intro other hOther
    change other ∈ components.items at hOther
    rw [hItems] at hOther
    rcases List.mem_append.mp hOther with hOld | hNew
    · exact hStores.stored other hOld
    · rw [List.mem_singleton.mp hNew]
      exact hHolds.stored
  · change components.items.map KString.bytes = _
    rw [hItems, List.map_append, ← hStores.bytes,
      ← hHolds.bytes]
    rfl

end KFilePath

end KDoth

------------------------------------------------------------
-- Parsing
------------------------------------------------------------

namespace KDoth

variable {allocator : Allocator}

/- Adding an item appends it. -/
theorem KList.yields_addObject
    {α : Type}
    [KObject α]
    (hGranted : ∀ n, allocator n = true)
    (list : KList α)
    {x : α}
    (hRetain : Yields (KObject.retain x) (fun _ => True)) :
    Yields (list.addObject allocator (some x))
      (fun r =>
        r = ({ list with items := list.items ++ [x] }, true)) := by
  unfold KList.addObject
  apply Yields.bind (Yields.ofRequest hGranted)
  intro granted hTrue
  subst hTrue
  apply Yields.bind hRetain
  intro _ _
  exact Yields.ret rfl

namespace KFilePath

open Segments

theorem yields_alloc
    (hGranted : ∀ n, allocator n = true) :
    Yields (alloc allocator)
      (fun r => ∃ path, r = some path ∧ path.Stores false []) := by
  unfold alloc KList.new
  apply Yields.bind (Yields.ofObjectNew hGranted)
  rintro r ⟨address, hAddress⟩
  subst hAddress
  apply
    Yields.bind (R := fun r =>
      ∃ list : KList KString,
        r = some list ∧ list.items = [])
  · apply Yields.bind (Yields.ofObjectNew hGranted)
    rintro r ⟨listAddress, hList⟩
    subst hList
    exact Yields.ret ⟨_, rfl, rfl⟩
  · rintro r ⟨list, hList, hItems⟩
    subst hList
    refine Yields.ret ⟨_, rfl, rfl, ?_, ?_⟩
    · intro s hs
      simp [hItems] at hs
    · simp [componentBytes, hItems]

/- A slice of the text becomes a component. -/
theorem yields_addSlice
    (hGranted : ∀ n, allocator n = true)
    {path : KFilePath}
    {isAbsolute : Bool}
    {parts : List (List UInt8)}
    (hStores : path.Stores isAbsolute parts)
    (before run rest : List UInt8) :
    Yields
      (addSlice allocator (some (before ++ run ++ rest)) path
        before.length run.length)
      (fun r => r.Stores isAbsolute (parts ++ [run])) := by
  have hDrop :
      (before ++ run ++ rest).drop before.length = run ++ rest := by
    rw [List.append_assoc, List.drop_left]
  unfold addSlice
  simp only [Option.map_some, hDrop]
  have hRoom : run.length ≤ (run ++ rest).length := by simp
  apply Yields.bind
    (KString.yields_newWithData hGranted hRoom)
  rintro comp ⟨s, hComp, hHolds⟩
  subst hComp
  rw [List.take_left] at hHolds
  apply Yields.bind
    (KList.yields_addObject hGranted path.components
      (KString.yields_retain s))
  rintro _ hAdded
  subst hAdded
  apply Yields.bind (Yields.ofAssert rfl)
  intro _ _
  apply Yields.bind (KString.yields_release s)
  intro _ _
  exact Yields.ret (hStores.append hHolds rfl)

/-
  After `i` bytes of the text, the run from `start` has no
  separator and is not a component yet.
-/
structure Scanned
    (text : List UInt8)
    (i : Nat)
    (path : KFilePath)
    (start : Nat)
    (before run : List UInt8)
    (parts : List (List UInt8)) : Prop where
  scanned : text.take i = before ++ run
  start : before.length = start
  free : Free isSeparator run
  segments :
    parts ++ segments isSeparator (run ++ text.drop i) =
      segments isSeparator text
  stores :
    path.Stores ((text.take i).head?.any isSeparator) parts

/- One more byte of the text. -/
theorem take_succ_eq
    {text : List UInt8}
    {i : Nat}
    (hi : i < text.length) :
    text.take (i + 1) = text.take i ++ [text[i]] := by
  rw [List.take_add_one, List.getElem?_eq_getElem hi]
  rfl

/- The first byte decides whether the path is absolute. -/
theorem Stores.scanFirst
    {text : List UInt8}
    {i : Nat}
    {path : KFilePath}
    {parts : List (List UInt8)}
    (hi : i < text.length)
    (hStores :
      path.Stores ((text.take i).head?.any isSeparator) parts) :
    Stores
      (if i = 0 && isSeparator text[i] then
        { path with isAbsolute := true }
      else
        path)
      ((text.take (i + 1)).head?.any isSeparator) parts := by
  rw [take_succ_eq hi]
  cases i with
  | zero =>
      cases hSep : isSeparator text[0] with
      | true =>
          simp only [decide_true, Bool.and_self, if_true]
          exact
            ⟨by simp [hSep], hStores.stored, hStores.bytes⟩
      | false =>
          simp only [Bool.and_false, Bool.false_eq_true,
            if_false]
          exact
            ⟨by simpa [hSep] using hStores.isAbsolute,
              hStores.stored, hStores.bytes⟩
  | succ i =>
      have hHead :
          (text.take (i + 1) ++ [text[i + 1]]).head? =
            (text.take (i + 1)).head? := by
        apply List.head?_append_of_ne_nil
        intro hNil
        have hLength := congrArg List.length hNil
        rw [List.length_take, List.length_nil] at hLength
        omega
      rw [hHead]
      simpa using hStores

/- One iteration of the loop over the bytes. -/
theorem yields_scanByte
    (hGranted : ∀ n, allocator n = true)
    {text extra : List UInt8}
    {i : Nat}
    (hi : i < text.length)
    {path : KFilePath}
    {start : Nat}
    {before run : List UInt8}
    {parts : List (List UInt8)}
    (hScanned : Scanned text i path start before run parts) :
    Yields
      (scanByte allocator (some (text ++ extra)) (path, start) i)
      (fun r =>
        ∃ before run parts,
          Scanned text (i + 1) r.1 r.2 before run parts) := by
  have hByte : (text ++ extra).getD i 0 = text[i] := by
    rw [List.getD_eq_getElem?_getD,
      List.getElem?_append_left hi,
      List.getElem?_eq_getElem hi]
    rfl
  have hDrop : text.drop i = text[i] :: text.drop (i + 1) :=
    List.drop_eq_getElem_cons hi
  have hFirst := hScanned.stores.scanFirst hi
  have hTake := take_succ_eq hi
  rw [hScanned.scanned] at hTake
  unfold scanByte
  simp only [byteAt, hByte, pure_bind]
  generalize
    (if i = 0 && isSeparator text[i] then
        { path with isAbsolute := true }
      else
        path) = first at hFirst ⊢
  cases hSep : isSeparator text[i] with
  | false =>
      -- The byte joins the run.
      simp only [Bool.not_false, if_true]
      apply Yields.ret
      refine
        ⟨before, run ++ [text[i]], parts, ?_, hScanned.start,
          ?_, ?_, hFirst⟩
      · rw [hTake, List.append_assoc]
      · intro x hx
        rcases List.mem_append.mp hx with hOld | hNew
        · exact hScanned.free x hOld
        · rw [List.mem_singleton.mp hNew]
          exact hSep
      · rw [List.append_assoc, List.singleton_append, ← hDrop]
        exact hScanned.segments
  | true =>
      -- The run ends here and is a component unless empty.
      simp only [Bool.not_true, Bool.false_eq_true, if_false]
      have hSegments := hScanned.segments
      rw [hDrop, segments_append_cons _ _ hSep,
        segments_of_free hScanned.free, ← List.append_assoc]
        at hSegments
      have hCount : i - start = run.length := by
        have hLength := congrArg List.length hScanned.scanned
        rw [List.length_take, List.length_append,
          hScanned.start] at hLength
        omega
      have hNext :
          text.take (i + 1) = (before ++ run ++ [text[i]]) ++ [] := by
        rw [hTake, List.append_nil]
      have hStart :
          (before ++ run ++ [text[i]]).length = i + 1 := by
        rw [← List.append_nil (before ++ run ++ [text[i]]),
          ← hNext, List.length_take]
        omega
      rw [hCount]
      by_cases hRun : run = []
      · rw [if_neg (by simp [hRun])]
        rw [if_pos hRun, List.append_nil] at hSegments
        exact
          Yields.ret
            ⟨_, [], parts, hNext, hStart, nofun, hSegments,
              hFirst⟩
      · rw [if_pos (List.length_pos_iff.mpr hRun)]
        rw [if_neg hRun] at hSegments
        have hText :
            text ++ extra =
              before ++ run ++ (text.drop i ++ extra) := by
          rw [← hScanned.scanned, ← List.append_assoc,
            List.take_append_drop]
        rw [hText, ← hScanned.start]
        apply Yields.bind (yields_addSlice hGranted hFirst _ _ _)
        intro added hAdded
        exact
          Yields.ret
            ⟨_, [], _, hNext, hStart, nofun, hSegments, hAdded⟩

/- A path that stores the segments of a text. -/
theorem represents_parse
    {path : KFilePath}
    {text : List UInt8}
    {parts : List (List UInt8)}
    (hStores : path.Stores (text.head?.any isSeparator) parts)
    (hParts : parts = segments isSeparator text) :
    path.Represents (Pathname.parse isSeparator text) := by
  subst hParts
  exact hStores

/-
  Parsing reads the path name of the text. The loop keeps
  what was scanned; the run that is left over at the end is
  the last component.
-/
theorem yields_newWithString
    (hGranted : ∀ n, allocator n = true)
    {str : KString}
    {text : List UInt8}
    (hHolds : str.Holds text) :
    Yields (newWithString allocator (some str))
      (fun r =>
        ∃ path,
          r = some path ∧
            path.Represents (Pathname.parse isSeparator text)) := by
  have hSize := hHolds.length
  rcases hHolds.exists_buffer with ⟨extra, hBuffer⟩
  unfold newWithString
  apply Yields.bind (yields_alloc hGranted)
  rintro r ⟨path, hPath, hEmpty⟩
  subst hPath
  rw [hBuffer, ← hSize]
  have hLoop :
      Yields
        ((List.range text.length).foldlM
          (scanByte allocator (some (text ++ extra))) (path, 0))
        (fun r =>
          ∃ before run parts,
            Scanned text text.length r.1 r.2 before run
              parts) := by
    apply
      Yields.foldRange fun i (r : KFilePath × Nat) =>
        ∃ before run parts,
          Scanned text i r.1 r.2 before run parts
    · rintro i ⟨scanned, start⟩ hi ⟨_, _, _, hScanned⟩
      exact yields_scanByte hGranted hi hScanned
    · exact ⟨[], [], [], rfl, rfl, nofun, rfl, hEmpty⟩
  apply Yields.bind hLoop
  rintro ⟨scanned, start⟩ ⟨before, run, parts, hScanned⟩
  have hText : text = before ++ run := by
    rw [← hScanned.scanned, List.take_length]
  have hStart : before.length = start := hScanned.start
  have hSegments := hScanned.segments
  have hStores := hScanned.stores
  rw [List.drop_length, List.append_nil,
    segments_of_free hScanned.free] at hSegments
  rw [List.take_length] at hStores
  have hLength := congrArg List.length hText
  rw [List.length_append, hStart] at hLength
  by_cases hRun : run = []
  · have hEnd : ¬ start < text.length := by
      rw [hLength, hRun, List.length_nil]
      omega
    rw [if_pos hRun, List.append_nil] at hSegments
    simp only [hEnd, if_false]
    exact
      Yields.ret
        ⟨scanned, rfl, represents_parse hStores hSegments⟩
  · have hPos := List.length_pos_iff.mpr hRun
    have hEnd : start < text.length := by
      omega
    have hCount : text.length - start = run.length := by
      omega
    have hBlock :
        text ++ extra = before ++ run ++ extra := by
      rw [← hText]
    rw [if_neg hRun] at hSegments
    simp only [hEnd, if_true, hCount]
    rw [hBlock, ← hStart]
    apply Yields.bind (yields_addSlice hGranted hStores _ _ _)
    intro added hAdded
    exact
      Yields.ret
        ⟨added, rfl, represents_parse hAdded hSegments⟩

end KFilePath

end KDoth

------------------------------------------------------------
-- Components
------------------------------------------------------------

namespace KDoth

namespace KFilePath

variable {allocator : Allocator}

/- The path with further items. -/
def extended
    (path : KFilePath)
    (items : List KString) : KFilePath :=
  { path with
    components :=
      { path.components with
        items := path.components.items ++ items } }

/-
  One iteration adds the next item of the added path, also
  when the path is added to itself.
-/
theorem yields_addItem
    (hGranted : ∀ n, allocator n = true)
    {paths : List KFilePath}
    {path comp : Nat}
    {receiver other : KFilePath}
    (hReceiver : paths[path]? = some receiver)
    (hOther : paths[comp]? = some other)
    {i : Nat}
    (hi : i < other.components.items.length) :
    Yields
      (addItem allocator path comp
        (paths.set path
          (receiver.extended (other.components.items.take i)))
        i)
      (fun r =>
        r =
          paths.set path
            (receiver.extended
              (other.components.items.take (i + 1)))) := by
  have hPath : path < paths.length :=
    (List.getElem?_eq_some_iff.mp hReceiver).1
  have hStr :
      ((paths.set path
            (receiver.extended
              (other.components.items.take i)))[comp]?.bind
          fun comp => comp.components.getObjectAtIndex i) =
        some other.components.items[i] := by
    by_cases hSame : path = comp
    · subst hSame
      rw [hReceiver] at hOther
      cases hOther
      rw [List.getElem?_set_self hPath]
      simp only [Option.bind_some, KList.getObjectAtIndex,
        extended]
      rw [List.getElem?_append_left hi,
        List.getElem?_eq_getElem hi]
    · rw [List.getElem?_set_ne hSame, hOther]
      simp only [Option.bind_some, KList.getObjectAtIndex]
      rw [List.getElem?_eq_getElem hi]
  unfold addItem
  simp only [hStr, List.getElem?_set_self hPath]
  apply Yields.bind
    (KList.yields_addObject hGranted _
      (KString.yields_retain other.components.items[i]))
  rintro _ hAdded
  subst hAdded
  apply Yields.bind (Yields.ofAssert rfl)
  intro _ _
  apply Yields.ret
  rw [List.set_set]
  congr 1
  simp only [extended, List.append_assoc]
  rw [List.take_add_one, List.getElem?_eq_getElem hi]
  rfl

/- Adding a relative path appends all of its items. -/
theorem yields_addComponent
    (hGranted : ∀ n, allocator n = true)
    {paths : List KFilePath}
    {path comp : Nat}
    {receiver other : KFilePath}
    (hReceiver : paths[path]? = some receiver)
    (hOther : paths[comp]? = some other)
    (hRelative : other.isAbsolute = false) :
    Yields
      (addComponent allocator paths (some path) (some comp))
      (fun r =>
        r =
          (paths.set path
              (receiver.extended other.components.items),
            true)) := by
  unfold addComponent
  simp only [hOther, isAbsoluteOrNull, hRelative,
    Bool.false_eq_true, if_false, countComponents,
    KList.getCount]
  have hStart :
      paths =
        paths.set path
          (receiver.extended
            (other.components.items.take 0)) := by
    rcases List.getElem?_eq_some_iff.mp hReceiver with
      ⟨hPath, hGet⟩
    have hSame : receiver.extended [] = paths[path] := by
      rw [hGet]
      simp [extended]
    rw [List.take_zero, hSame, List.set_getElem_self]
  have hLoop :
      Yields
        ((List.range other.components.items.length).foldlM
          (addItem allocator path comp) paths)
        (fun r =>
          r =
            paths.set path
              (receiver.extended
                (other.components.items.take
                  other.components.items.length))) := by
    apply
      Yields.foldRange fun i r =>
        r =
          paths.set path
            (receiver.extended
              (other.components.items.take i))
    · rintro i _ hi hEq
      subst hEq
      exact yields_addItem hGranted hReceiver hOther hi
    · exact hStart
  apply Yields.bind hLoop
  rintro _ hEq
  subst hEq
  rw [List.take_length]
  exact Yields.ret rfl

end KFilePath

end KDoth

------------------------------------------------------------
-- Rendering
------------------------------------------------------------

namespace KDoth

namespace KFilePath

variable {allocator : Allocator}

/-
  After `i` components, the text still lacks the remaining
  ones.
-/
def Rendered
    (name : Pathname isSeparator)
    (sep : UInt8)
    (i : Nat)
    (result : Option KString) : Prop :=
  ∃ string front,
    result = some string ∧
      string.Holds front ∧
      front ++ [sep].intercalate (name.components.drop i) =
        name.render sep

/-
  One iteration appends a component, and the separator unless
  it is the last one.
-/
theorem yields_appendComponent
    (hGranted : ∀ n, allocator n = true)
    {path : KFilePath}
    {name : Pathname isSeparator}
    (hName : path.Represents name)
    {sep : UInt8}
    {sepString : KString}
    (hSep : sepString.Holds [sep])
    (hFits : (name.render sep).length + 1 < 2 ^ 64)
    {result : KString}
    {front : List UInt8}
    (hResult : result.Holds front)
    {i : Nat}
    (hi : i < name.components.length)
    (hRest :
      front ++ [sep].intercalate (name.components.drop i) =
        name.render sep) :
    Yields
      (appendComponent allocator path (some sepString)
        (some result) i)
      (Rendered name sep (i + 1)) := by
  have hCount :
      path.components.items.length = name.components.length := by
    rw [← hName.bytes, componentBytes, List.length_map]
  have hItem : i < path.components.items.length := by
    omega
  have hComp :
      (path.components.items[i]).Holds name.components[i] := by
    refine ⟨hName.stored _ (List.getElem_mem hItem), ?_⟩
    simp only [← hName.bytes, componentBytes, List.getElem_map]
  rw [List.drop_eq_getElem_cons hi] at hRest
  unfold appendComponent
  simp only [KList.getObjectAtIndex, KList.getCount,
    List.getElem?_eq_getElem hItem, hCount]
  by_cases hLast : i = name.components.length - 1
  · -- Nothing follows the last component.
    have hNone : name.components.drop (i + 1) = [] := by
      apply List.drop_of_length_le
      omega
    rw [hNone, List.intercalate_singleton] at hRest
    rw [← hRest] at hFits
    apply Yields.bind
      (KString.yields_appendOrNull hGranted hResult hComp hFits)
    rintro _ ⟨joined, hEq, hJoined⟩
    subst hEq
    apply Yields.bind (Yields.ofAssert rfl)
    intro _ _
    simp only [hLast, ne_eq, not_true_eq_false, if_false]
    refine Yields.ret ⟨joined, _, rfl, hJoined, ?_⟩
    rw [← hLast, hNone, List.intercalate_nil, List.append_nil]
    exact hRest
  · have hSome : name.components.drop (i + 1) ≠ [] := by
      intro hNil
      have hLength := congrArg List.length hNil
      rw [List.length_drop, List.length_nil] at hLength
      omega
    rw [List.intercalate_cons_of_ne_nil hSome,
      ← List.append_assoc, ← List.append_assoc] at hRest
    have hLength := congrArg List.length hRest
    rw [List.length_append] at hLength
    have hSecond :
        (front ++ name.components[i] ++ [sep]).length + 1 <
          2 ^ 64 := by
      omega
    have hFirst :
        (front ++ name.components[i]).length + 1 < 2 ^ 64 := by
      simp only [List.length_append] at hSecond ⊢
      omega
    apply Yields.bind
      (KString.yields_appendOrNull hGranted hResult hComp hFirst)
    rintro _ ⟨joined, hEq, hJoined⟩
    subst hEq
    apply Yields.bind (Yields.ofAssert rfl)
    intro _ _
    simp only [hLast, ne_eq, not_false_eq_true, if_true]
    apply Yields.bind
      (KString.yields_appendOrNull hGranted hJoined hSep hSecond)
    rintro _ ⟨separated, hEq, hSeparated⟩
    subst hEq
    apply Yields.bind (Yields.ofAssert rfl)
    intro _ _
    exact Yields.ret ⟨separated, _, rfl, hSeparated, hRest⟩

/- The rendering of a path is the text of its path name. -/
theorem yields_newStringRepresentation
    (hGranted : ∀ n, allocator n = true)
    {path : KFilePath}
    {name : Pathname isSeparator}
    (hName : path.Represents name)
    {sep : UInt8}
    (hFits : (name.render sep).length + 1 < 2 ^ 64) :
    Yields
      (newStringRepresentationWithSeparator allocator
        (some path) sep)
      (fun r =>
        ∃ string,
          r = some string ∧ string.Holds (name.render sep)) := by
  have hCount :
      path.components.items.length = name.components.length := by
    rw [← hName.bytes, componentBytes, List.length_map]
  unfold newStringRepresentationWithSeparator
  apply Yields.bind (KString.yields_newWithFormatV hGranted sep)
  rintro _ ⟨sepString, hEq, hSep⟩
  subst hEq
  have hBegin :
      Yields
        (representationRoot allocator path (some sepString))
        (fun r =>
          ∃ string,
            r = some string ∧
              string.Holds
                (if name.isAbsolute then [sep] else [])) := by
    unfold representationRoot
    rw [hName.isAbsolute]
    cases name.isAbsolute with
    | true => exact KString.yields_copy hGranted hSep
    | false => exact KString.yields_new hGranted
  apply Yields.bind hBegin
  rintro _ ⟨begun, hEq, hBegun⟩
  subst hEq
  have hLoop :
      Yields
        ((List.range name.components.length).foldlM
          (appendComponent allocator path (some sepString))
          (some begun))
        (Rendered name sep name.components.length) := by
    apply Yields.foldRange (Rendered name sep)
    · rintro i _ hi ⟨result, front, hEq, hResult, hRest⟩
      subst hEq
      exact
        yields_appendComponent hGranted hName hSep hFits hResult
          hi hRest
    · exact ⟨begun, _, rfl, hBegun, rfl⟩
  rw [KList.getCount, hCount]
  apply Yields.bind hLoop
  rintro _ ⟨result, front, hEq, hResult, hRest⟩
  subst hEq
  rw [List.drop_length, List.intercalate_nil,
    List.append_nil] at hRest
  subst hRest
  apply Yields.bind (KString.yields_release sepString)
  intro _ _
  exact Yields.ret ⟨result, rfl, hResult⟩

end KFilePath

end KDoth
