import Mathlib.Order.Defs.Unbundled

/-
  Weakest preconditions of commands over a mutable state
  that may stop early. A stopped command keeps the state it
  stopped in, so a postcondition can speak about it.

  Key definitions include:
    * `Command`
    * `Command.wp`
    * `Command.Returns`
    * `Command.Leads`
    * `Command.Evolves`

  Key theorems include:
    * `Command.wp_bind`
    * `Command.wp_mono`
    * `Command.wp_imp`
    * `Command.wp_foldRange`
    * `Command.wp_forRange`
    * `Command.Leads.bind`
    * `Command.Evolves.bind`
-/

------------------------------------------------------------
-- Weakest Preconditions
------------------------------------------------------------

namespace KDoth

/-
  A command reads and writes a state of type `σ`, returns a
  value of type `α` or stops for a reason of type `ε`.
-/
abbrev Command (ε σ α : Type) := EStateM ε σ α

namespace Command

variable {ε σ α β : Type}

/-
  The command started in `s` ends in `Q` if it returns and in
  `E` if it stops.
-/
def wp
    (c : Command ε σ α)
    (Q : α → σ → Prop)
    (E : ε → σ → Prop)
    (s : σ) : Prop :=
  match c s with
  | .ok a s' => Q a s'
  | .error e s' => E e s'

end Command

end KDoth

------------------------------------------------------------
-- Rules
------------------------------------------------------------

namespace KDoth

namespace Command

variable {ε σ α β : Type}
variable {Q : α → σ → Prop} {E : ε → σ → Prop} {s : σ}

@[simp] theorem wp_pure
    (a : α) :
    wp (pure a : Command ε σ α) Q E s ↔ Q a s :=
  Iff.rfl

@[simp] theorem wp_bind
    (c : Command ε σ β)
    (f : β → Command ε σ α) :
    wp (c >>= f) Q E s ↔
      wp c (fun b s' => wp (f b) Q E s') E s := by
  unfold wp
  change
    (match EStateM.bind c f s with
      | .ok a s' => Q a s'
      | .error e s' => E e s') ↔ _
  unfold EStateM.bind
  cases c s with
  | ok b s' => rfl
  | error e s' => rfl

@[simp] theorem wp_throw
    (e : ε) :
    wp (throw e : Command ε σ α) Q E s ↔ E e s :=
  Iff.rfl

@[simp] theorem wp_get
    {Q : σ → σ → Prop} :
    wp (get : Command ε σ σ) Q E s ↔ Q s s :=
  Iff.rfl

@[simp] theorem wp_set
    {Q : PUnit → σ → Prop}
    (t : σ) :
    wp (set t : Command ε σ PUnit) Q E s ↔ Q ⟨⟩ t :=
  Iff.rfl

@[simp] theorem wp_modify
    {Q : PUnit → σ → Prop}
    (f : σ → σ) :
    wp (modify f : Command ε σ PUnit) Q E s ↔
      Q ⟨⟩ (f s) :=
  Iff.rfl

@[simp] theorem wp_map
    (f : β → α)
    (c : Command ε σ β) :
    wp (f <$> c) Q E s ↔
      wp c (fun b s' => Q (f b) s') E s := by
  unfold wp
  change
    (match EStateM.map f c s with
      | .ok a s' => Q a s'
      | .error e s' => E e s') ↔ _
  unfold EStateM.map
  cases c s with
  | ok b s' => rfl
  | error e s' => rfl

/- A command that follows one that returned. -/
theorem bind_of_ok
    {c : Command ε σ β}
    {f : β → Command ε σ α}
    {t : σ}
    {b : β}
    (hRun : c s = .ok b t) :
    (c >>= f) s = f b t := by
  change EStateM.bind c f s = f b t
  unfold EStateM.bind
  rw [hRun]

/- A command that stopped is followed by nothing. -/
theorem bind_of_error
    {c : Command ε σ β}
    {f : β → Command ε σ α}
    {t : σ}
    {e : ε}
    (hRun : c s = .error e t) :
    (c >>= f) s = .error e t := by
  change EStateM.bind c f s = .error e t
  unfold EStateM.bind
  rw [hRun]

/- A sequence that returned is two commands that did. -/
theorem ok_of_bind
    {c : Command ε σ β}
    {f : β → Command ε σ α}
    {a : α}
    {t : σ}
    (hRun : (c >>= f) s = .ok a t) :
    ∃ b u, c s = .ok b u ∧ f b u = .ok a t := by
  cases hFirst : c s with
  | ok b u =>
      rw [bind_of_ok hFirst] at hRun
      exact ⟨b, u, rfl, hRun⟩
  | error e u =>
      rw [bind_of_error hFirst] at hRun
      cases hRun

/- A conditional command splits its precondition. -/
theorem wp_ite
    (p : Prop)
    [Decidable p]
    (c d : Command ε σ α) :
    wp (if p then c else d) Q E s ↔
      if p then wp c Q E s else wp d Q E s := by
  by_cases hp : p
  · simp [hp]
  · simp [hp]

/- Postconditions may be weakened. -/
theorem wp_mono
    {Q' : α → σ → Prop}
    {E' : ε → σ → Prop}
    {c : Command ε σ α}
    (hWp : wp c Q E s)
    (hQ : ∀ a s', Q a s' → Q' a s')
    (hE : ∀ e s', E e s' → E' e s') :
    wp c Q' E' s := by
  unfold wp at hWp ⊢
  cases hRun : c s with
  | ok a s' =>
      simp only [hRun] at hWp ⊢
      exact hQ a s' hWp
  | error e s' =>
      simp only [hRun] at hWp ⊢
      exact hE e s' hWp

/- What holds when the command stops is left as it is. -/
theorem wp_imp
    {Q' : α → σ → Prop}
    {c : Command ε σ α}
    (hWp : wp c Q E s)
    (hQ : ∀ a s', Q a s' → Q' a s') :
    wp c Q' E s :=
  wp_mono hWp hQ fun _ _ h => h

/-
  A counting loop that carries a value keeps an invariant
  about the count, the value and the state.
-/
theorem wp_foldRange
    {f : α → Nat → Command ε σ α}
    (Inv : Nat → α → σ → Prop)
    (n : Nat)
    (hStep :
      ∀ i a s,
        i < n → Inv i a s → wp (f a i) (Inv (i + 1)) E s)
    {a : α}
    (hStart : Inv 0 a s) :
    wp ((List.range n).foldlM f a) (Inv n) E s := by
  induction n with
  | zero => exact hStart
  | succ n ih =>
      rw [List.range_succ, List.foldlM_append, wp_bind]
      have hBefore :=
        ih fun i a s hi => hStep i a s (Nat.lt_succ_of_lt hi)
      apply wp_imp hBefore
      intro b t hb
      rw [List.foldlM_cons, wp_bind]
      exact hStep n b t (Nat.lt_succ_self n) hb

/- A counting loop that carries no value. -/
theorem wp_forRange
    {f : Nat → Command ε σ PUnit}
    (Inv : Nat → σ → Prop)
    (n : Nat)
    (hStep :
      ∀ i s,
        i < n → Inv i s → wp (f i) (fun _ => Inv (i + 1)) E s)
    (hStart : Inv 0 s) :
    wp (forM (List.range n) f) (fun _ => Inv n) E s := by
  induction n with
  | zero => exact hStart
  | succ n ih =>
      rw [List.range_succ, List.forM_append, wp_bind]
      have hBefore :=
        ih fun i s hi => hStep i s (Nat.lt_succ_of_lt hi)
      apply wp_imp hBefore
      intro _ t ht
      rw [List.forM_cons, wp_bind]
      exact hStep n t (Nat.lt_succ_self n) ht

/- Every command returns or stops. -/
theorem not_wp_false
    {c : Command ε σ α} :
    ¬ wp c (fun _ _ => False) (fun _ _ => False) s := by
  unfold wp
  cases c s with
  | ok a s' => exact id
  | error e s' => exact id

/- Nothing is asked of a run. -/
theorem wp_true
    (c : Command ε σ α)
    (s : σ) :
    wp c (fun _ _ => True) (fun _ _ => True) s := by
  unfold wp
  cases c s with
  | ok a s' => trivial
  | error e s' => trivial

/- Two facts about one run may be read off together. -/
theorem wp_and
    {Q' : α → σ → Prop}
    {E' : ε → σ → Prop}
    {c : Command ε σ α}
    (hLeft : wp c Q E s)
    (hRight : wp c Q' E' s) :
    wp c (fun a s' => Q a s' ∧ Q' a s')
      (fun e s' => E e s' ∧ E' e s') s := by
  unfold wp at *
  cases hRun : c s with
  | ok a s' =>
      simp only [hRun] at hLeft hRight ⊢
      exact ⟨hLeft, hRight⟩
  | error e s' =>
      simp only [hRun] at hLeft hRight ⊢
      exact ⟨hLeft, hRight⟩

end Command

end KDoth

------------------------------------------------------------
-- Commands That Return
------------------------------------------------------------

namespace KDoth

namespace Command

variable {ε σ α β : Type}

/- The command started in `s` returns, and ends in `Q`. -/
def Returns
    (c : Command ε σ α)
    (s : σ)
    (Q : α → σ → Prop) : Prop :=
  ∃ a s', c s = .ok a s' ∧ Q a s'

/- A command returns one value. -/
theorem Returns.value_unique
    {c : Command ε σ α}
    {s t u : σ}
    {a b : α}
    (hLeft : Returns c s (fun x s' => x = a ∧ s' = t))
    (hRight : Returns c s (fun x s' => x = b ∧ s' = u)) :
    a = b := by
  rcases hLeft with ⟨x, s₁, hRun, hx, _⟩
  rcases hRight with ⟨y, s₂, hRun', hy, _⟩
  rw [hRun] at hRun'
  injection hRun' with hEq
  rw [← hx, ← hy, hEq]

/- Returning is never stopping. -/
theorem returns_iff_wp
    {c : Command ε σ α}
    {s : σ}
    {Q : α → σ → Prop} :
    Returns c s Q ↔ wp c Q (fun _ _ => False) s := by
  unfold Returns wp
  cases hRun : c s with
  | ok a s' =>
      constructor
      · intro h
        rcases h with ⟨b, t, hEq, hQ⟩
        cases hEq
        exact hQ
      · intro hQ
        exact ⟨a, s', rfl, hQ⟩
  | error e s' =>
      constructor
      · intro h
        rcases h with ⟨b, t, hEq, _⟩
        cases hEq
      · intro hQ
        exact hQ.elim

theorem Returns.mono
    {c : Command ε σ α}
    {s : σ}
    {Q Q' : α → σ → Prop}
    (hReturns : Returns c s Q)
    (hQ : ∀ a s', Q a s' → Q' a s') :
    Returns c s Q' := by
  rcases hReturns with ⟨a, s', hRun, hPost⟩
  exact ⟨a, s', hRun, hQ a s' hPost⟩

/-
  From every state in `P` the command ends in `Q` if it
  returns. Nothing is said about commands that stop.
-/
def Leads
    (P : σ → Prop)
    (c : Command ε σ α)
    (Q : α → σ → Prop) : Prop :=
  ∀ s, P s → wp c Q (fun _ _ => True) s

namespace Leads

variable {P : σ → Prop} {Q : α → σ → Prop}

theorem ret
    {a : α}
    (hQ : ∀ s, P s → Q a s) :
    Leads P (pure a : Command ε σ α) Q := by
  intro s hs
  exact hQ s hs

theorem stop
    {e : ε} :
    Leads P (throw e : Command ε σ α) Q := by
  intro s _
  exact True.intro

theorem bind
    {R : β → σ → Prop}
    {c : Command ε σ β}
    {f : β → Command ε σ α}
    (hFirst : Leads P c R)
    (hNext : ∀ b, Leads (R b) (f b) Q) :
    Leads P (c >>= f) Q := by
  intro s hs
  rw [wp_bind]
  apply wp_mono (hFirst s hs)
  · intro b s' hb
    exact hNext b s' hb
  · intro _ _ _
    exact True.intro

theorem mono
    {P' : σ → Prop}
    {Q' : α → σ → Prop}
    {c : Command ε σ α}
    (hLeads : Leads P c Q)
    (hP : ∀ s, P' s → P s)
    (hQ : ∀ a s, Q a s → Q' a s) :
    Leads P' c Q' := by
  intro s hs
  apply wp_mono (hLeads s (hP s hs))
  · exact hQ
  · intro _ _ _
    exact True.intro

/- What is required may be strengthened. -/
theorem assuming
    {P' : σ → Prop}
    {c : Command ε σ α}
    (hLeads : Leads P c Q)
    (hP : ∀ s, P' s → P s) :
    Leads P' c Q :=
  hLeads.mono hP fun _ _ h => h

end Leads

end Command

end KDoth

------------------------------------------------------------
-- Commands And A Preorder Of States
------------------------------------------------------------

namespace KDoth

namespace Command

variable {ε σ α β : Type} {R : σ → σ → Prop}

/-
  The state that the command starts in is related to the one
  that it returns or stops in, and a value that it returns is
  in `G`.
-/
def Evolves
    (R : σ → σ → Prop)
    (c : Command ε σ α)
    (G : α → Prop) : Prop :=
  ∀ s, wp c (fun a s' => R s s' ∧ G a) (fun _ s' => R s s') s

namespace Evolves

/- One change of the state. -/
theorem update
    {f : σ → σ}
    (hRelated : ∀ s, R s (f s)) :
    Evolves R (modify f : Command ε σ PUnit)
      (fun _ => True) := by
  intro s
  exact ⟨hRelated s, True.intro⟩

theorem mono
    {G G' : α → Prop}
    {c : Command ε σ α}
    (hEvolves : Evolves R c G)
    (hG : ∀ a, G a → G' a) :
    Evolves R c G' := by
  intro s
  apply wp_imp (hEvolves s)
  intro a t ht
  exact ⟨ht.1, hG a ht.2⟩

section

variable [IsPreorder σ R]

theorem ret
    {G : α → Prop}
    {a : α}
    (hG : G a) :
    Evolves R (pure a : Command ε σ α) G := by
  intro s
  exact ⟨Std.Refl.refl s, hG⟩

theorem stop
    {G : α → Prop}
    {e : ε} :
    Evolves R (throw e : Command ε σ α) G := by
  intro s
  exact Std.Refl.refl s

/- The rest of a run is related to the state it is run in. -/
theorem wp_trans
    {G : α → Prop}
    {c : Command ε σ α}
    {s t : σ}
    (hBefore : R s t)
    (hRest : wp c (fun a u => R t u ∧ G a) (fun _ => R t) t) :
    wp c (fun a u => R s u ∧ G a) (fun _ => R s) t := by
  apply wp_mono hRest
  · intro a u hu
    exact ⟨IsTrans.trans s t u hBefore hu.1, hu.2⟩
  · intro _ u hu
    exact IsTrans.trans s t u hBefore hu

theorem bind
    {F : β → Prop}
    {G : α → Prop}
    {c : Command ε σ β}
    {f : β → Command ε σ α}
    (hFirst : Evolves R c F)
    (hNext : ∀ b, F b → Evolves R (f b) G) :
    Evolves R (c >>= f) G := by
  intro s
  rw [wp_bind]
  apply wp_imp (hFirst s)
  intro b t ht
  exact wp_trans ht.1 (hNext b ht.2 t)

theorem each
    {f : β → Command ε σ PUnit}
    (l : List β)
    (hEach : ∀ b ∈ l, Evolves R (f b) (fun _ => True)) :
    Evolves R (forM l f) (fun _ => True) := by
  induction l with
  | nil => exact ret True.intro
  | cons b l ih =>
      rw [List.forM_cons]
      apply bind (hEach b List.mem_cons_self)
      intro _ _
      exact
        ih (fun b' hb' => hEach b' (List.mem_cons_of_mem _ hb'))

end

end Evolves

end Command

end KDoth
