import Mathlib.Init

/-
  Machines whose steps return a value to the caller, and two
  machines run side by side on the same steps. A machine
  refines another when no caller can tell them apart.

  Key definitions include:
    * `Machine`
    * `Machine.Alike`
    * `Machine.Meets`
    * `Machine.run`
    * `Machine.only`

  Key theorems include:
    * `Machine.alike_iff_meets_of_view`
    * `Machine.alike_iff_meets`
    * `Machine.run_of_simulation`
    * `Machine.run_of_simulation_of_meets`
    * `Machine.invariant_of_run`
-/

------------------------------------------------------------
-- Machines
------------------------------------------------------------

namespace KDoth

/-
  A machine. A step returns a value and the next state, or
  `none` while it has to wait.
-/
structure Machine (State Step Value : Type) where
  step : State → Step → Option (Value × State)

namespace Machine

variable {σ τ Step Value : Type}

/- The values returned by a list of steps, and the end. -/
def run
    (M : Machine σ Step Value) :
    σ → List Step → Option (List Value × σ)
| s, [] => some ([], s)
| s, l :: ls =>
    match M.step s l with
    | none => none
    | some (v, s') =>
        match M.run s' ls with
        | none => none
        | some (vs, s'') => some (v :: vs, s'')

/- The machine with only some of its steps. -/
def only
    (M : Machine σ Step Value)
    (P : σ → Step → Prop)
    [∀ s l, Decidable (P s l)] :
    Machine σ Step Value where
  step s l := if P s l then M.step s l else none

theorem only_step_eq_some
    {M : Machine σ Step Value}
    {P : σ → Step → Prop}
    [∀ s l, Decidable (P s l)]
    {s : σ}
    {l : Step}
    {q : Value × σ} :
    (M.only P).step s l = some q ↔
      P s l ∧ M.step s l = some q := by
  unfold only
  by_cases hMay : P s l
  · simp [hMay]
  · simp [hMay]

/-
  Side by side on the same steps both machines return the
  same values, wait at the same steps, and are in states
  related by `View` all the way.
-/
def Alike
    (M : Machine σ Step Value)
    (N : Machine τ Step Value)
    (View : σ → τ → Prop) :
    σ → τ → List Step → Prop
| s, t, [] => View s t
| s, t, l :: ls =>
    View s t ∧
      match M.step s l, N.step t l with
      | none, none => True
      | some (v, s'), some (w, t') =>
          v = w ∧ M.Alike N View s' t' ls
      | _, _ => False

/- Every step taken meets a condition on the state before. -/
def Meets
    (N : Machine τ Step Value)
    (C : τ → Step → Prop) :
    τ → List Step → Prop
| _, [] => True
| t, l :: ls =>
    match N.step t l with
    | none => True
    | some (_, t') => C t l ∧ N.Meets C t' ls

instance decidableMeets
    (N : Machine τ Step Value)
    (C : τ → Step → Prop)
    [∀ t l, Decidable (C t l)] :
    ∀ t ls, Decidable (N.Meets C t ls)
| _, [] => isTrue trivial
| t, l :: ls =>
    match hStep : N.step t l with
    | none =>
        isTrue (by
          unfold Meets
          rw [hStep]
          trivial)
    | some (_, t') =>
        have := decidableMeets N C t' ls
        decidable_of_iff (C t l ∧ N.Meets C t' ls) (by
          simp only [Meets, hStep])

end Machine

end KDoth

------------------------------------------------------------
-- Simulation
------------------------------------------------------------

namespace KDoth

namespace Machine

variable {σ τ Step Value : Type}
variable {M : Machine σ Step Value}
variable {N : Machine τ Step Value}

/- One step of both machines ends in related states. -/
def Matches
    (M : Machine σ Step Value)
    (N : Machine τ Step Value)
    (R : σ → τ → Prop)
    (s : σ)
    (t : τ)
    (l : Step) : Prop :=
  (M.step s l = none ∧ N.step t l = none) ∨
    ∃ v s' t',
      M.step s l = some (v, s') ∧
        N.step t l = some (v, t') ∧
        R s' t'

theorem alike_cons_of_matches
    {R View : σ → τ → Prop}
    {s : σ}
    {t : τ}
    {l : Step}
    {ls : List Step}
    (hView : View s t)
    (hMatches : Matches M N R s t l)
    (hTail :
      ∀ v s' t',
        N.step t l = some (v, t') →
          R s' t' → M.Alike N View s' t' ls) :
    M.Alike N View s t (l :: ls) := by
  refine ⟨hView, ?_⟩
  rcases hMatches with
    ⟨hM, hN⟩ | ⟨v, s', t', hM, hN, hRel⟩
  · rw [hM, hN]
    trivial
  · rw [hM, hN]
    exact ⟨rfl, hTail v s' t' hN hRel⟩

/- What the machines being alike says of a step taken. -/
theorem Alike.step
    {View : σ → τ → Prop}
    {s : σ}
    {t t' : τ}
    {l : Step}
    {ls : List Step}
    {v : Value}
    (hAlike : M.Alike N View s t (l :: ls))
    (hStep : N.step t l = some (v, t')) :
    ∃ s',
      M.step s l = some (v, s') ∧
        M.Alike N View s' t' ls := by
  have hBoth := hAlike.2
  rw [hStep] at hBoth
  cases hM : M.step s l with
  | none =>
      rw [hM] at hBoth
      exact hBoth.elim
  | some q =>
      rcases q with ⟨w, s'⟩
      rw [hM] at hBoth
      rcases hBoth with ⟨hValue, hTail⟩
      subst hValue
      exact ⟨s', rfl, hTail⟩

theorem Alike.view
    {View : σ → τ → Prop}
    {s : σ}
    {t : τ}
    {ls : List Step}
    (hAlike : M.Alike N View s t ls) :
    View s t := by
  cases ls with
  | nil => exact hAlike
  | cons l ls => exact hAlike.1

/-
  Steps that meet the condition are matched, and a step that
  does not meet it shows in its value or in the states after
  it: then the machines are alike exactly on the runs whose
  steps all meet it.
-/
theorem alike_iff_meets_of_view
    {R View : σ → τ → Prop}
    {C : τ → Step → Prop}
    (hView : ∀ s t, R s t → View s t)
    (hMatch :
      ∀ s t l,
        R s t →
          (∀ r, N.step t l = some r → C t l) →
            Matches M N R s t l)
    (hShows :
      ∀ s t l v s' t',
        R s t → N.step t l = some (v, t') →
          M.step s l = some (v, s') → View s' t' → C t l)
    {s : σ}
    {t : τ}
    (hRel : R s t)
    (ls : List Step) :
    M.Alike N View s t ls ↔ N.Meets C t ls := by
  induction ls generalizing s t with
  | nil =>
      constructor
      · intro _
        trivial
      · intro _
        exact hView s t hRel
  | cons l ls ih =>
      constructor
      · intro hAlike
        unfold Meets
        cases hN : N.step t l with
        | none => trivial
        | some r =>
            rcases r with ⟨v, t'⟩
            rcases hAlike.step hN with ⟨s', hM, hTail⟩
            have hCond : C t l :=
              hShows s t l v s' t' hRel hN hM hTail.view
            refine ⟨hCond, ?_⟩
            rcases hMatch s t l hRel (fun _ _ => hCond) with
              ⟨hNone, _⟩ | ⟨_, _, _, hM', hN', hNext⟩
            · rw [hM] at hNone
              cases hNone
            · rw [hM] at hM'
              rw [hN] at hN'
              cases hM'
              cases hN'
              exact (ih hNext).mp hTail
      · intro hMeets
        unfold Meets at hMeets
        have hCond : ∀ r, N.step t l = some r → C t l := by
          intro r hN
          rw [hN] at hMeets
          exact hMeets.1
        refine
          alike_cons_of_matches (hView s t hRel)
            (hMatch s t l hRel hCond) ?_
        intro v s' t' hN hNext
        rw [hN] at hMeets
        exact (ih hNext).mpr hMeets.2

/-
  The same, where a step that does not meet the condition
  shows in its value.
-/
theorem alike_iff_meets
    {R View : σ → τ → Prop}
    {C : τ → Step → Prop}
    (hView : ∀ s t, R s t → View s t)
    (hMatch :
      ∀ s t l,
        R s t →
          (∀ r, N.step t l = some r → C t l) →
            Matches M N R s t l)
    (hShows :
      ∀ s t l v t',
        R s t → N.step t l = some (v, t') →
          (∃ s', M.step s l = some (v, s')) → C t l)
    {s : σ}
    {t : τ}
    (hRel : R s t)
    (ls : List Step) :
    M.Alike N View s t ls ↔ N.Meets C t ls :=
  alike_iff_meets_of_view hView hMatch
    (fun s t l v s' t' hBefore hN hM _ =>
      hShows s t l v t' hBefore hN ⟨s', hM⟩)
    hRel ls

/- Every run meets a condition that always holds. -/
theorem meets_of_forall
    {C : σ → Step → Prop}
    (hAll : ∀ s l, C s l)
    (s : σ)
    (ls : List Step) :
    M.Meets C s ls := by
  induction ls generalizing s with
  | nil => trivial
  | cons l ls ih =>
      unfold Meets
      cases M.step s l with
      | none => trivial
      | some q => exact ⟨hAll s l, ih q.2⟩

/-
  Where the other machine takes every step of the first that
  meets a condition with the same value, it takes every run
  whose steps meet it.
-/
theorem run_of_simulation
    {R : σ → τ → Prop}
    {C : σ → Step → Prop}
    (hStep :
      ∀ s t l v s',
        R s t → C s l → M.step s l = some (v, s') →
          ∃ t', N.step t l = some (v, t') ∧ R s' t')
    {s s' : σ}
    {t : τ}
    {ls : List Step}
    {vs : List Value}
    (hRel : R s t)
    (hMeets : M.Meets C s ls)
    (hRun : M.run s ls = some (vs, s')) :
    ∃ t', N.run t ls = some (vs, t') ∧ R s' t' := by
  induction ls generalizing s t vs with
  | nil =>
      cases hRun
      exact ⟨t, rfl, hRel⟩
  | cons l ls ih =>
      unfold Machine.run at hRun ⊢
      unfold Meets at hMeets
      cases hM : M.step s l with
      | none =>
          rw [hM] at hRun
          cases hRun
      | some q =>
          rcases q with ⟨v, s₁⟩
          rw [hM] at hRun hMeets
          rcases hMeets with ⟨hCond, hTail⟩
          rcases hStep s t l v s₁ hRel hCond hM with
            ⟨t₁, hN, hNext⟩
          rw [hN]
          cases hRest : M.run s₁ ls with
          | none =>
              simp [hRest] at hRun
          | some rest =>
              rcases rest with ⟨us, s₂⟩
              simp only [hRest, Option.some.injEq,
                Prod.mk.injEq] at hRun
              rcases hRun with ⟨hValues, hEnd⟩
              subst hEnd
              rcases ih hNext hTail hRest with
                ⟨t', hRunN, hEnds⟩
              refine ⟨t', ?_, hEnds⟩
              simp [hRunN, hValues]

/-
  The same, where the condition is on the states of the other
  machine.
-/
theorem run_of_simulation_of_meets
    {R : σ → τ → Prop}
    {C : τ → Step → Prop}
    (hStep :
      ∀ s t l v s',
        R s t → (∀ q, N.step t l = some q → C t l) →
          M.step s l = some (v, s') →
            ∃ t', N.step t l = some (v, t') ∧ R s' t')
    {s s' : σ}
    {t : τ}
    {ls : List Step}
    {vs : List Value}
    (hRel : R s t)
    (hMeets : N.Meets C t ls)
    (hRun : M.run s ls = some (vs, s')) :
    ∃ t', N.run t ls = some (vs, t') ∧ R s' t' := by
  induction ls generalizing s t vs with
  | nil =>
      cases hRun
      exact ⟨t, rfl, hRel⟩
  | cons l ls ih =>
      unfold Machine.run at hRun ⊢
      unfold Meets at hMeets
      cases hM : M.step s l with
      | none =>
          rw [hM] at hRun
          cases hRun
      | some q =>
          rcases q with ⟨v, s₁⟩
          have hCond : ∀ q, N.step t l = some q → C t l := by
            intro q hN
            rw [hN] at hMeets
            exact hMeets.1
          rcases hStep s t l v s₁ hRel hCond hM with
            ⟨t₁, hN, hNext⟩
          rw [hM] at hRun
          rw [hN] at hMeets ⊢
          cases hRest : M.run s₁ ls with
          | none =>
              simp [hRest] at hRun
          | some rest =>
              rcases rest with ⟨us, s₂⟩
              simp only [hRest, Option.some.injEq,
                Prod.mk.injEq] at hRun
              rcases hRun with ⟨hValues, hEnd⟩
              subst hEnd
              rcases ih hNext hMeets.2 hRest with
                ⟨t', hRunN, hEnds⟩
              refine ⟨t', ?_, hEnds⟩
              simp [hRunN, hValues]

end Machine

end KDoth

------------------------------------------------------------
-- Invariants Of A History
------------------------------------------------------------

namespace KDoth

namespace Machine

variable {σ Step Value : Type}
variable {M : Machine σ Step Value}

/-
  An invariant of the state together with the steps and the
  values so far holds after every run whose steps meet the
  condition.
-/
theorem invariant_of_run
    {I : σ → List Step → List Value → Prop}
    {C : σ → Step → Prop}
    (hStep :
      ∀ s ls vs l v s',
        I s ls vs → C s l → M.step s l = some (v, s') →
          I s' (ls ++ [l]) (vs ++ [v]))
    {s s' : σ}
    {ls₀ ls : List Step}
    {vs₀ vs : List Value}
    (hStart : I s ls₀ vs₀)
    (hMeets : M.Meets C s ls)
    (hRun : M.run s ls = some (vs, s')) :
    I s' (ls₀ ++ ls) (vs₀ ++ vs) := by
  induction ls generalizing s ls₀ vs₀ vs with
  | nil =>
      cases hRun
      simpa using hStart
  | cons l ls ih =>
      unfold Machine.run at hRun
      unfold Meets at hMeets
      cases hM : M.step s l with
      | none =>
          rw [hM] at hRun
          cases hRun
      | some q =>
          rcases q with ⟨v, s₁⟩
          rw [hM] at hRun hMeets
          rcases hMeets with ⟨hCond, hTail⟩
          cases hRest : M.run s₁ ls with
          | none =>
              simp [hRest] at hRun
          | some rest =>
              rcases rest with ⟨us, s₂⟩
              simp only [hRest, Option.some.injEq,
                Prod.mk.injEq] at hRun
              rcases hRun with ⟨hValues, hEnd⟩
              subst hValues
              subst hEnd
              have hNext :=
                hStep s ls₀ vs₀ l v s₁ hStart hCond hM
              simpa using ih hNext hTail hRest

end Machine

end KDoth
