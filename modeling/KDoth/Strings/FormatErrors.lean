import KDoth.Strings.Concatenation

/-
  A formatted string is well formed, whatever `vsnprintf`
  answers, except for the answer -1: the size of the string is
  then the largest there is, and its block has no bytes.

  Key definitions include:
    * `KStringHead.FormatsWell`

  Key theorems include:
    * `KStringHead.formatsWell_iff`
-/

------------------------------------------------------------
-- Well-Formed Strings
------------------------------------------------------------

namespace KDoth

namespace KStringHead

open Command MemoryCall StringCall StringView StringClient

/-
  The size of the string is the number of bytes that were
  written, and there is room for one more.
-/
def WellFormed
    (cell : Nat → Option StringCell)
    (a : Nat)
    (text : List UInt8) : Prop :=
  ∃ v,
    Shows cell a v ∧ v.bytes = text ∧ 1 ≤ v.extra.length

/-
  Whatever a client does with the string later, no call
  accesses anything that is not inside a block.
-/
def StaysInside
    (source : AddressSource)
    (s : StringMemory)
    (a : Nat) : Prop :=
  ∀ c,
    ((system source).startingAt ⟨s, [a]⟩).ReachableWhere Rule
        c →
      (∀ x ∈ c.strings,
          wp (getHash (some x)) (fun _ _ => True)
            (Unlucky source) c.memory) ∧
        (∀ x ∈ c.strings, ∀ y ∈ c.strings,
          wp (isEqual (some x) (some y)) (fun _ _ => True)
            (Unlucky source) c.memory) ∧
        ∀ action, Rule c action →
          wp (perform source c.strings action)
            (fun _ _ => True) (Unlucky source) c.memory

/- The string is NULL or well formed, now and later. -/
def FormatsWell
    (source : AddressSource)
    (s : StringMemory)
    (format : Formatting) : Prop :=
  Returns (newWithFormatV source format) s
    (fun r s' =>
      ∀ a, r = some a →
        WellFormed s'.cell a format.text ∧
          StaysInside source s' a)

end KStringHead

end KDoth

------------------------------------------------------------
-- When Formatting Goes Well
------------------------------------------------------------

namespace KDoth

namespace KStringHead

open Command MemoryCall StringCall StringView StringClient

variable {s : StringMemory} {source : AddressSource}
variable {format : Formatting} {a : Nat} {v : StringView}

/- A string that a client may have stays inside its block. -/
theorem staysInside_of_shows
    (hShows : Shows s.cell a v) :
    StaysInside source s a := by
  intro c hReach
  have hAlone : Collected s.cell [a] := by
    constructor
    · intro b hb
      rw [List.mem_singleton.mp hb]
      exact ⟨v, hShows⟩
    · intro b hb x hx hNe
      rw [List.mem_singleton.mp hb,
        List.mem_singleton.mp hx] at hNe
      exact absurd rfl hNe
  have hCollected :=
    @collected_of_later source ⟨s, [a]⟩ c hAlone hReach
  refine ⟨?_, ?_, ?_⟩
  · intro x hx
    rcases hCollected.shown x hx with ⟨u, hu⟩
    rw [wp_getHash hu]
    trivial
  · intro x hx y hy
    rcases hCollected.shown x hx with ⟨u, hu⟩
    rcases hCollected.shown y hy with ⟨w, hw⟩
    rw [wp_isEqual hu hw]
    trivial
  · intro action hRule
    exact
      wp_imp (wp_perform hCollected hRule) fun _ _ _ => trivial

/- The block of the error -1 has no bytes to show. -/
theorem not_wellFormed_of_undersized
    {cell cell' : Nat → Option StringCell}
    {text : List UInt8}
    (hUndersized : Undersized cell cell' a) :
    ¬ WellFormed cell' a text := by
  rintro ⟨v, hShows, _, _⟩
  rcases hUndersized.bare with ⟨p, b, _, hObject, _, _⟩
  have hHead := hShows.object
  rw [hObject] at hHead
  have hSize :
      KString.sizeOfInt (-1) = v.bytes.length :=
    congrArg KStringHead.size
      (StringCell.object.inj (Option.some.inj hHead))
  have hSmall := hShows.small
  have hLarge : ptrdiffMax < KString.sizeOfInt (-1) := by
    decide
  omega

/- What is formatted well does not come from the error -1. -/
theorem undersized_of_error
    {E : Fault → StringMemory → Prop}
    (hOccupied : ∀ s', E .occupied s')
    (hError : format.count.toInt = -1)
    (hGranted : ¬ format.Refused source s.nextRequest) :
    wp (newWithFormatV source format)
      (fun r s' =>
        ∃ a, r = some a ∧ Undersized s.cell s'.cell a)
      E s := by
  apply wp_newWithFormatV hOccupied
  · rintro s' (hRefused | hOther) _ _
    · exact absurd hRefused hGranted
    · omega
  · intro hText
    omega
  · intro _ _ a s' hUndersized
    exact ⟨a, rfl, hUndersized⟩

/-
  Formatting goes well exactly when `vsnprintf` does not
  answer -1, or an allocation is refused.
-/
theorem formatsWell_iff
    (source : AddressSource)
    (s : StringMemory)
    (format : Formatting)
    (hFresh : FreshAnswers (newWithFormatV source format) s) :
    FormatsWell source s format ↔
      format.count.toInt ≠ -1 ∨
        format.Refused source s.nextRequest := by
  have hReturns {Q : Option Nat → StringMemory → Prop}
      (hWp :
        wp (newWithFormatV source format) Q
          (fun e _ => e = .occupied) s) :
      Returns (newWithFormatV source format) s Q := by
    rw [returns_iff_wp]
    apply wp_mono (wp_and hFresh hWp)
    · exact fun _ _ hBoth => hBoth.2
    · exact fun _ _ hBoth => hBoth.1 hBoth.2
  constructor
  · intro hWell
    by_contra hNot
    rw [not_or, not_not] at hNot
    have hBad :=
      hReturns (undersized_of_error (fun _ => rfl) hNot.1 hNot.2)
    rcases hWell with ⟨r, s', hRun, hGood⟩
    rcases hBad with ⟨r', s'', hRun', a, rfl, hUndersized⟩
    rw [hRun] at hRun'
    cases hRun'
    exact
      not_wellFormed_of_undersized hUndersized (hGood a rfl).1
  · intro hCondition
    apply hReturns
    apply wp_newWithFormatV (fun _ => rfl)
    · exact fun _ _ _ _ => nofun
    · rintro _ _ a s' v _ hMade _ hBytes hExtra _ ⟨rfl⟩
      refine ⟨⟨v, hMade.shows, hBytes, ?_⟩, ?_⟩
      · rw [hExtra]
        exact Nat.le_refl 1
      · exact staysInside_of_shows hMade.shows
    · intro hError hGranted
      rcases hCondition with hNot | hRefused
      · exact absurd hError hNot
      · exact absurd hRefused hGranted

/- The format fails to be converted, and memory is granted. -/
def failing : Formatting where
  count := -1
  text := []
  counted := by decide

theorem formatsWell_iff_failing :
    FormatsWell (.counting 0) .empty failing ↔
      failing.count.toInt ≠ -1 ∨
        failing.Refused (.counting 0) 0 :=
  formatsWell_iff (.counting 0) .empty failing trivial

/-
  The string is returned, and its hash reads behind the end
  of its block.
-/
theorem formats_badly :
    ¬ FormatsWell (.counting 0) .empty failing ∧
      wp
        (newWithFormatV (.counting 0) failing >>= getHash)
        (fun _ _ => False) (fun e _ => e = .outOfBounds)
        StringMemory.empty := by
  constructor
  · rintro ⟨r, s', hRun, hGood⟩
    have hBad :=
      @undersized_of_error .empty (.counting 0) failing
        (fun e _ => e = .occupied) (fun _ => rfl) (by decide)
        (by rintro (hNone | hNone) <;> cases hNone)
    unfold wp at hBad
    rw [hRun] at hBad
    rcases hBad with ⟨a, rfl, hUndersized⟩
    exact
      not_wellFormed_of_undersized hUndersized (hGood a rfl).1
  · exact (rfl : Fault.outOfBounds = Fault.outOfBounds)

end KStringHead

end KDoth
