import KDoth.Foundations.TransitionSystem
import KDoth.Strings.Formatting

/-
  Appending concatenates bytes in every history of strings,
  under any aliasing of the string and its suffix.

  Key definitions include:
    * `StringClient`
    * `StringClient.system`
    * `StringClient.Collected`
    * `StringClient.Concatenates`

  Key theorems include:
    * `StringClient.collected_of_reachable`
    * `StringClient.append_concatenates`
-/

------------------------------------------------------------
-- Clients
------------------------------------------------------------

namespace KDoth

/- A program that holds strings, in the order it got them. -/
structure StringClient where
  memory : StringMemory
  strings : List Nat

/- A call of the program. Strings are given by position. -/
inductive StringAction where
  | newWithData (data : DataPointer) (count : Nat)
  | new
  | copy (i : Nat)
  | newWithFormatV (format : Formatting)
  | append (i j : Nat)

namespace StringClient

open KStringHead

variable (source : AddressSource)

/- A call with the strings there are afterwards. -/
def perform
    (strings : List Nat) :
    StringAction → StringCall (List Nat)
| .newWithData data count => do
    let str ← newWithData source data count
    pure (strings ++ str.toList)
| .new => do
    let str ← new source
    pure (strings ++ str.toList)
| .copy i => do
    let str ← copy source strings[i]?
    pure (strings ++ str.toList)
| .newWithFormatV format => do
    let str ← newWithFormatV source format
    pure (strings ++ str.toList)
| .append i j => do
    let _ ← append source strings[i]? strings[j]?
    pure strings

/- The programs, whatever is in memory besides. -/
def system : TransitionSystem StringClient StringAction where
  Init c := c.strings = []
  step c a :=
    match perform source c.strings a c.memory with
    | .ok strings memory => some ⟨memory, strings⟩
    | .error _ _ => none

/-
  The data of a new string can be read, and the size of a
  formatted string was found.
-/
def Rule (c : StringClient) : StringAction → Prop
| .newWithData data count =>
    ∃ bytes : List UInt8,
      bytes.length = count ∧
        data.Readable c.memory.cell count (bytes.map some)
| .newWithFormatV format => 0 ≤ format.count.toInt
| _ => True

end StringClient

end KDoth

------------------------------------------------------------
-- Strings Apart
------------------------------------------------------------

namespace KDoth

namespace StringClient

open StringView

/- The strings are in memory, and none share a block. -/
structure Collected
    (cell : Nat → Option StringCell)
    (strings : List Nat) : Prop where
  shown : ∀ a ∈ strings, ∃ v, Shows cell a v
  apart :
    ∀ a ∈ strings, ∀ b ∈ strings, a ≠ b →
      ∀ v w, Shows cell a v → Shows cell b w →
        v.buffer ≠ w.buffer

variable {cell cell' : Nat → Option StringCell}
variable {strings : List Nat} {a b : Nat}
variable {v w : StringView}

/- A string that was there has the block that it had. -/
theorem Collected.apart_made
    (hCollected : Collected cell strings)
    (hMade : Made cell cell' a v)
    (hb : b ∈ strings)
    (hShows : Shows cell' b w) :
    w.buffer ≠ v.buffer := by
  rcases hCollected.shown b hb with ⟨u, hBefore⟩
  have hSame := hShows.unique (hBefore.mono hMade.extends)
  rcases hBefore.block with ⟨block, hBlock, _⟩
  intro hEq
  rw [← hSame, hEq, hMade.block] at hBlock
  cases hBlock

theorem Collected.made
    (hCollected : Collected cell strings)
    (hMade : Made cell cell' a v) :
    Collected cell' (strings ++ [a]) := by
  constructor
  · intro b hb
    rcases List.mem_append.mp hb with hOld | hNew
    · rcases hCollected.shown b hOld with ⟨u, hShows⟩
      exact ⟨u, hShows.mono hMade.extends⟩
    · rw [List.mem_singleton.mp hNew]
      exact ⟨v, hMade.shows⟩
  · intro b hb c hc hNe u w hFirst hSecond
    rcases List.mem_append.mp hb with hOld | hNew
    · rcases List.mem_append.mp hc with hOther | hOther
      · rcases hCollected.shown b hOld with ⟨u', hu⟩
        rcases hCollected.shown c hOther with ⟨w', hw⟩
        rw [hFirst.unique (hu.mono hMade.extends),
          hSecond.unique (hw.mono hMade.extends)]
        exact
          hCollected.apart b hOld c hOther hNe u' w' hu hw
      · rw [List.mem_singleton.mp hOther] at hSecond
        rw [hSecond.unique hMade.shows]
        exact hCollected.apart_made hMade hOld hFirst
    · rcases List.mem_append.mp hc with hOther | hOther
      · rw [List.mem_singleton.mp hNew] at hFirst
        rw [hFirst.unique hMade.shows]
        exact (hCollected.apart_made hMade hOther hSecond).symm
      · rw [List.mem_singleton.mp hNew,
          List.mem_singleton.mp hOther] at hNe
        exact absurd rfl hNe

/- The others are as they were when a string has changed. -/
theorem Collected.kept
    {u : StringView}
    (hCollected : Collected cell strings)
    (hChanged : Changed cell cell' a v w)
    (hBefore : Shows cell a v)
    (ha : a ∈ strings)
    (hb : b ∈ strings)
    (hNe : b ≠ a)
    (hOther : Shows cell b u) :
    Shows cell' b u :=
  hChanged.kept hBefore hOther hNe
    (hCollected.apart b hb a ha hNe u v hOther hBefore)

/- The block of a changed string is not that of another. -/
theorem Collected.apart_changed
    {u : StringView}
    (hCollected : Collected cell strings)
    (hChanged : Changed cell cell' a v w)
    (hBefore : Shows cell a v)
    (ha : a ∈ strings)
    (hb : b ∈ strings)
    (hNe : b ≠ a)
    (hOther : Shows cell b u) :
    u.buffer ≠ w.buffer := by
  rcases hChanged.moved with hSame | hFree
  · rw [hSame]
    exact hCollected.apart b hb a ha hNe u v hOther hBefore
  · intro hEq
    rcases hOther.block with ⟨block, hBlock, _⟩
    rw [hEq, hFree] at hBlock
    cases hBlock

theorem Collected.changed
    (hCollected : Collected cell strings)
    (hChanged : Changed cell cell' a v w)
    (hBefore : Shows cell a v)
    (ha : a ∈ strings) :
    Collected cell' strings := by
  have hKept {b : Nat} {u : StringView} :=
    @Collected.kept cell cell' strings a b v w u hCollected
      hChanged hBefore ha
  have hApart {b : Nat} {u : StringView} :=
    @Collected.apart_changed cell cell' strings a b v w u
      hCollected hChanged hBefore ha
  constructor
  · intro b hb
    by_cases hSame : b = a
    · exact ⟨w, hSame ▸ hChanged.shows⟩
    · rcases hCollected.shown b hb with ⟨u, hShows⟩
      exact ⟨u, hKept hb hSame hShows⟩
  · intro b hb c hc hNe u u' hFirst hSecond
    rcases hCollected.shown b hb with ⟨x, hx⟩
    rcases hCollected.shown c hc with ⟨y, hy⟩
    by_cases hb' : b = a
    · have hc' : c ≠ a := fun hEq => hNe (hb'.trans hEq.symm)
      subst hb'
      rw [hFirst.unique hChanged.shows,
        hSecond.unique (hKept hc hc' hy)]
      exact (hApart hc hc' hy).symm
    · by_cases hc' : c = a
      · subst hc'
        rw [hSecond.unique hChanged.shows,
          hFirst.unique (hKept hb hb' hx)]
        exact hApart hb hb' hx
      · rw [hFirst.unique (hKept hb hb' hx),
          hSecond.unique (hKept hc hc' hy)]
        exact hCollected.apart b hb c hc hNe x y hx hy

/- Memory that is as before has the strings as before. -/
theorem Collected.congr
    (hCollected : Collected cell strings)
    (hCell : cell' = cell) :
    Collected cell' strings := hCell ▸ hCollected

end StringClient

end KDoth

------------------------------------------------------------
-- Calls Of A Client
------------------------------------------------------------

namespace KDoth

namespace StringClient

open Command StringCall KStringHead StringView

variable {source : AddressSource} {c : StringClient}
variable {s : StringMemory} {strings : List Nat} {a b : Nat}
variable {v w : StringView}

/-
  A constructor makes a string of its own or returns NULL.
-/
theorem wp_made
    {constructor : StringCall (Option Nat)}
    {cell : Nat → Option StringCell}
    (hCollected : Collected cell strings)
    (hMakes :
      wp constructor
        (fun r s' =>
          (r = none ∧ s'.cell = cell) ∨
            ∃ a v, r = some a ∧ Made cell s'.cell a v)
        (Unlucky source) s) :
    wp
      (do
        let str ← constructor
        pure (strings ++ str.toList))
      (fun r s' => Collected s'.cell r) (Unlucky source) s := by
  rw [wp_bind]
  apply wp_imp hMakes
  rintro r s' (⟨rfl, hCell⟩ | ⟨a, v, rfl, hMade⟩)
  · rw [wp_pure, Option.toList_none, List.append_nil]
    exact hCollected.congr hCell
  · exact hCollected.made hMade

/- What an append does to a collection of strings. -/
structure Appended
    (s s' : StringMemory)
    (strings : List Nat)
    (a : Nat)
    (bytes : List UInt8) : Prop where
  receiver : ∃ u, Shows s'.cell a u ∧ u.bytes = bytes
  others :
    ∀ b ∈ strings, b ≠ a → ∀ u,
      Shows s.cell b u → Shows s'.cell b u

theorem wp_append_collected
    {E : Fault → StringMemory → Prop}
    (hOccupied : ∀ s', E .occupied s')
    (hCollected : Collected s.cell strings)
    (ha : a ∈ strings)
    (hb : b ∈ strings)
    (hString : Shows s.cell a v)
    (hSuffix : Shows s.cell b w) :
    wp (append source (some a) (some b))
      (fun r s' =>
        Collected s'.cell strings ∧
          (r = true →
            Appended s s' strings a (v.bytes ++ w.bytes)) ∧
          (r = false → s'.cell = s.cell))
      E s := by
  have hApart : b = a ∨ w.buffer ≠ v.buffer := by
    by_cases hSame : b = a
    · exact .inl hSame
    · exact
        .inr
          (hCollected.apart b hb a ha hSame w v hSuffix hString)
  apply wp_append hOccupied hString hSuffix hApart
  · intro s' hCell
    exact ⟨hCollected.congr hCell, nofun, fun _ => hCell⟩
  · intro s' u hChanged _ hBytes _
    refine ⟨hCollected.changed hChanged hString ha, ?_, nofun⟩
    intro _
    exact
      ⟨⟨u, hChanged.shows, hBytes⟩,
        fun x hx hNe _ hOther =>
          hCollected.kept hChanged hString ha hx hNe hOther⟩

/- Every call of a client leaves its strings apart. -/
theorem wp_perform
    {action : StringAction}
    (hCollected : Collected c.memory.cell c.strings)
    (hRule : Rule c action) :
    wp (perform source c.strings action)
      (fun r s' => Collected s'.cell r) (Unlucky source)
      c.memory := by
  cases action with
  | newWithData data count =>
      rcases hRule with ⟨bytes, rfl, hReadable⟩
      apply wp_made hCollected
      apply wp_newWithData Unlucky.occupied hReadable
      · exact Refused.unlucky
      · exact fun _ _ hCell => .inl ⟨rfl, hCell⟩
      · exact
          fun _ a _ v hMade _ _ _ => .inr ⟨a, v, rfl, hMade⟩
  | new =>
      apply wp_made hCollected
      apply wp_new Unlucky.occupied
      · exact Refused.unlucky
      · exact fun _ _ hCell => .inl ⟨rfl, hCell⟩
      · exact
          fun _ a _ v hMade _ _ _ => .inr ⟨a, v, rfl, hMade⟩
  | copy i =>
      apply wp_made hCollected
      cases hItem : c.strings[i]? with
      | none => exact .inl ⟨rfl, rfl⟩
      | some str =>
          have hMem := List.mem_of_getElem? hItem
          rcases hCollected.shown str hMem with ⟨u, hShows⟩
          apply wp_copy Unlucky.occupied hShows
          · exact Refused.unlucky
          · exact fun _ _ hCell => .inl ⟨rfl, hCell⟩
          · exact
              fun _ a _ v hMade _ _ _ => .inr ⟨a, v, rfl, hMade⟩
  | newWithFormatV format =>
      apply wp_made hCollected
      apply wp_newWithFormatV Unlucky.occupied
      · exact fun _ _ _ hCell => .inl ⟨rfl, hCell⟩
      · intro _ _ a _ v _ hMade _ _ _
        exact .inr ⟨a, v, rfl, hMade⟩
      · intro hError _
        have hText : 0 ≤ format.count.toInt := hRule
        omega
  | append i j =>
      simp only [perform, wp_bind, wp_pure]
      cases hFirst : c.strings[i]? with
      | none => exact hCollected
      | some a =>
          cases hSecond : c.strings[j]? with
          | none => exact hCollected
          | some b =>
              have ha := List.mem_of_getElem? hFirst
              have hb := List.mem_of_getElem? hSecond
              rcases hCollected.shown a ha with ⟨v, hv⟩
              rcases hCollected.shown b hb with ⟨w, hw⟩
              apply wp_imp
                (wp_append_collected Unlucky.occupied
                  hCollected ha hb hv hw)
              intro r s' hPost
              exact hPost.1

/- One step of a client. -/
theorem Collected.step
    {c' : StringClient}
    {action : StringAction}
    (hCollected : Collected c.memory.cell c.strings)
    (hRule : Rule c action)
    (hStep : (system source).step c action = some c') :
    Collected c'.memory.cell c'.strings := by
  have hPerform :=
    @wp_perform source c action hCollected hRule
  unfold system wp at *
  dsimp only at hStep
  cases hRun : perform source c.strings action c.memory with
  | ok strings s' =>
      rw [hRun] at hStep hPerform
      cases hStep
      exact hPerform
  | error e s' =>
      rw [hRun] at hStep
      cases hStep

/- By induction on the calls. -/
theorem collected_of_reachable
    (hReach : (system source).ReachableWhere Rule c) :
    Collected c.memory.cell c.strings := by
  apply hReach.invariant
  · intro c hInit
    change c.strings = [] at hInit
    rw [hInit]
    exact ⟨nofun, nofun⟩
  · intro c action c' hCollected hRule hStep
    exact hCollected.step hRule hStep

/- By induction on the calls that follow. -/
theorem collected_of_later
    {c' : StringClient}
    (hCollected : Collected c.memory.cell c.strings)
    (hReach :
      ((system source).startingAt c).ReachableWhere Rule c') :
    Collected c'.memory.cell c'.strings := by
  apply hReach.invariant
  · intro c₁ hInit
    cases hInit
    exact hCollected
  · intro c₁ action c₂ hCollected₁ hRule hStep
    exact hCollected₁.step hRule hStep

end StringClient

end KDoth

------------------------------------------------------------
-- Concatenation
------------------------------------------------------------

namespace KDoth

namespace StringClient

open Command KStringHead StringView

/-
  What it is for strings to concatenate. A fault would be an
  access that is not inside a block, and the only one is an
  answer of the allocator that no allocator gives.
-/
structure Concatenates
    (source : AddressSource)
    (c : StringClient) : Prop where
  shown : ∀ a ∈ c.strings, ∃ v, Shows c.memory.cell a v
  appends :
    ∀ a ∈ c.strings, ∀ b ∈ c.strings, ∀ v w,
      Shows c.memory.cell a v →
        Shows c.memory.cell b w →
          wp (append source (some a) (some b))
            (fun r s' =>
              (r = true →
                  Appended c.memory s' c.strings a
                    (v.bytes ++ w.bytes)) ∧
                (r = false → s'.cell = c.memory.cell))
            (fun e _ => e = .occupied) c.memory
  compares :
    ∀ a ∈ c.strings, ∀ b ∈ c.strings, ∀ v w,
      Shows c.memory.cell a v →
        Shows c.memory.cell b w →
          Returns (isEqual (some a) (some b)) c.memory
            (fun r s' =>
              s' = c.memory ∧ (r = true ↔ v.bytes = w.bytes))

/- Strings concatenate whatever was done with them before. -/
theorem append_concatenates
    (source : AddressSource)
    (c : StringClient)
    (hReach : (system source).ReachableWhere Rule c) :
    Concatenates source c := by
  have hCollected := collected_of_reachable hReach
  constructor
  · exact hCollected.shown
  · intro a ha b hb v w hString hSuffix
    apply wp_imp
      (wp_append_collected (fun _ => rfl) hCollected ha hb
        hString hSuffix)
    intro r s' hPost
    exact hPost.2
  · intro a _ b _ v w hLeft hRight
    rw [returns_iff_wp, wp_isEqual hLeft hRight]
    exact ⟨rfl, decide_eq_true_iff⟩

/- The calls of a program that appends a string to itself. -/
def doubling : List StringAction :=
  [.newWithFormatV ⟨1, [97], fun _ => rfl⟩, .copy 0,
    .append 0 0, .append 1 0]

theorem append_concatenates_doubling :
    ∃ c,
      (system (.counting 0)).exec ⟨.empty, []⟩ doubling =
          some c ∧
        Concatenates (.counting 0) c := by
  have hRuns :
      ((system (.counting 0)).exec ⟨.empty, []⟩
        doubling).isSome = true := by
    rfl
  rcases Option.isSome_iff_exists.mp hRuns with ⟨c, hExec⟩
  have hMeets :
      (system (.counting 0)).ExecMeets Rule ⟨.empty, []⟩
        doubling := by
    refine ⟨?_, fun _ _ => ⟨trivial, fun _ _ => ?_⟩⟩
    · change 0 ≤ (1 : Int32).toInt
      decide
    · exact
        ⟨trivial, fun _ _ => ⟨trivial, fun _ _ => trivial⟩⟩
  have hReach :=
    TransitionSystem.reachableWhere_of_exec (.init rfl) hMeets
      hExec
  exact ⟨c, hExec, append_concatenates (.counting 0) c hReach⟩

end StringClient

end KDoth
