import Mathlib.Algebra.GroupWithZero.Nat
import Mathlib.Logic.Function.Basic

/-
  Labelled transition systems given by a partial step
  function, with the invariant rules used by every
  concurrent component.

  Key definitions include:
    * `TransitionSystem`
    * `TransitionSystem.ReachableWhere`
    * `TransitionSystem.Reachable`
    * `TransitionSystem.exec`
    * `TransitionSystem.Leads`
    * `TransitionSystem.Nears`

  Key theorems include:
    * `TransitionSystem.ReachableWhere.invariant`
    * `TransitionSystem.reachableWhere_of_exec`
    * `TransitionSystem.execMeets_or`
    * `TransitionSystem.execMeets_iff`
    * `TransitionSystem.execMeets_of_end`
    * `TransitionSystem.countP_le_of_rank`
    * `TransitionSystem.countP_add_rank_le`
    * `TransitionSystem.leads_of_progress`
-/

------------------------------------------------------------
-- Transition Systems
------------------------------------------------------------

namespace KDoth

/-
  A transition system. A step that is not enabled returns
  `none`, so a trace can be replayed by evaluation.
-/
structure TransitionSystem (State Label : Type) where
  Init : State → Prop
  step : State → Label → Option State

namespace TransitionSystem

variable {State Label : Type}

/-
  States reached by steps that all meet a condition on the
  state before the step and its label.
-/
inductive ReachableWhere
    (T : TransitionSystem State Label)
    (C : State → Label → Prop) : State → Prop
| init {s : State} (hInit : T.Init s) :
    ReachableWhere T C s
| step {s s' : State} {l : Label}
    (hReach : ReachableWhere T C s)
    (hCond : C s l)
    (hStep : T.step s l = some s') :
    ReachableWhere T C s'

/- States reached by any steps. -/
def Reachable
    (T : TransitionSystem State Label)
    (s : State) : Prop :=
  T.ReachableWhere (fun _ _ => True) s

/- The same steps, from one state on. -/
def startingAt
    (T : TransitionSystem State Label)
    (s : State) :
    TransitionSystem State Label where
  Init s' := s' = s
  step := T.step

/- Replay a trace, failing at the first disabled step. -/
def exec
    (T : TransitionSystem State Label) :
    State → List Label → Option State
| s, [] => some s
| s, l :: ls =>
    match T.step s l with
    | none => none
    | some s' => T.exec s' ls

/- The condition holds at every step of a replayed trace. -/
def ExecMeets
    (T : TransitionSystem State Label)
    (C : State → Label → Prop) :
    State → List Label → Prop
| _, [] => True
| s, l :: ls =>
    C s l ∧
      ∀ s', T.step s l = some s' → T.ExecMeets C s' ls

instance decidableExecMeets
    (T : TransitionSystem State Label)
    (C : State → Label → Prop)
    [∀ s l, Decidable (C s l)] :
    ∀ s ls, Decidable (T.ExecMeets C s ls)
| _, [] => isTrue trivial
| s, l :: ls =>
    match hStep : T.step s l with
    | none =>
        decidable_of_iff (C s l)
          ⟨fun hCond =>
            ⟨hCond, fun s' hNext => by
              rw [hStep] at hNext
              cases hNext⟩,
            fun hMeets => hMeets.1⟩
    | some next =>
        have := decidableExecMeets T C next ls
        decidable_of_iff (C s l ∧ T.ExecMeets C next ls)
          ⟨fun hBoth =>
            ⟨hBoth.1, fun s' hNext => by
              rw [hStep] at hNext
              cases hNext
              exact hBoth.2⟩,
            fun hMeets => ⟨hMeets.1, hMeets.2 next hStep⟩⟩

/- Some trace can be replayed from one state to the other. -/
def Leads
    (T : TransitionSystem State Label)
    (s s' : State) : Prop :=
  ∃ ls, T.exec s ls = some s'

/- A state of lower rank, with the invariant, can be reached. -/
def Nears
    (T : TransitionSystem State Label)
    (Inv : State → Prop)
    (rank : State → Nat)
    (s : State) : Prop :=
  ∃ s', T.Leads s s' ∧ Inv s' ∧ rank s' < rank s

end TransitionSystem

end KDoth

------------------------------------------------------------
-- Invariant Rules
------------------------------------------------------------

namespace KDoth

namespace TransitionSystem

variable {State Label : Type}
variable {T : TransitionSystem State Label}
variable {C : State → Label → Prop}

/-
  A property of initial states kept by every admitted step
  holds in every state reached.
-/
theorem ReachableWhere.invariant
    {Inv : State → Prop}
    (hInit : ∀ s, T.Init s → Inv s)
    (hStep :
      ∀ s l s',
        Inv s → C s l → T.step s l = some s' → Inv s')
    {s : State}
    (hReach : T.ReachableWhere C s) :
    Inv s := by
  induction hReach with
  | init h => exact hInit _ h
  | step _ hCond hNext ih => exact hStep _ _ _ ih hCond hNext

/- An invariant of unrestricted steps. -/
theorem Reachable.invariant
    {Inv : State → Prop}
    (hInit : ∀ s, T.Init s → Inv s)
    (hStep :
      ∀ s l s', Inv s → T.step s l = some s' → Inv s')
    {s : State}
    (hReach : T.Reachable s) :
    Inv s :=
  ReachableWhere.invariant hInit
    (fun s l s' hInv _ hNext => hStep s l s' hInv hNext)
    hReach

/- A trace is its first step and the rest. -/
theorem exec_cons
    {s s' : State}
    {l : Label}
    {ls : List Label}
    (hExec : T.exec s (l :: ls) = some s') :
    ∃ next,
      T.step s l = some next ∧ T.exec next ls = some s' := by
  cases hNext : T.step s l with
  | none =>
      simp [exec, hNext] at hExec
  | some next =>
      refine ⟨next, rfl, ?_⟩
      simpa [exec, hNext] using hExec

/- A property kept by every step is kept by every trace. -/
theorem exec_invariant
    (Inv : State → Prop)
    (hStep :
      ∀ s l s', Inv s → T.step s l = some s' → Inv s')
    {s s' : State}
    {ls : List Label}
    (hInv : Inv s)
    (hExec : T.exec s ls = some s') :
    Inv s' := by
  induction ls generalizing s with
  | nil =>
      simp only [exec, Option.some.injEq] at hExec
      subst hExec
      exact hInv
  | cons l ls ih =>
      rcases exec_cons hExec with ⟨next, hNext, hTail⟩
      exact ih (hStep s l next hInv hNext) hTail

/- A replayed trace whose steps meet `C` reaches its end. -/
theorem reachableWhere_of_exec
    {s s' : State}
    {ls : List Label}
    (hReach : T.ReachableWhere C s)
    (hMeets : T.ExecMeets C s ls)
    (hExec : T.exec s ls = some s') :
    T.ReachableWhere C s' := by
  induction ls generalizing s with
  | nil =>
      simp only [exec, Option.some.injEq] at hExec
      subst hExec
      exact hReach
  | cons l ls ih =>
      rcases exec_cons hExec with ⟨next, hNext, hTail⟩
      exact
        ih (.step hReach hMeets.1 hNext)
          (hMeets.2 next hNext) hTail

/- A trace meets `C` if its first step and the rest do. -/
theorem execMeets_cons
    {s next : State}
    {l : Label}
    {ls : List Label}
    (hNext : T.step s l = some next) :
    T.ExecMeets C s (l :: ls) ↔
      C s l ∧ T.ExecMeets C next ls := by
  constructor
  · intro hMeets
    exact ⟨hMeets.1, hMeets.2 next hNext⟩
  · intro hBoth
    refine ⟨hBoth.1, ?_⟩
    intro s' hStep
    rw [hNext, Option.some.injEq] at hStep
    exact hStep ▸ hBoth.2

/-
  A trace meets `C` throughout and keeps what such steps
  keep, or some step of it does not and what that step leads
  to holds from then on.
-/
theorem execMeets_or
    (Good Bad : State → Prop)
    (hKeeps :
      ∀ s l s',
        Good s → C s l → T.step s l = some s' → Good s')
    (hLeaves :
      ∀ s l s',
        Good s → ¬ C s l → T.step s l = some s' → Bad s')
    (hStays :
      ∀ s l s', Bad s → T.step s l = some s' → Bad s')
    {s s' : State}
    {ls : List Label}
    (hGood : Good s)
    (hExec : T.exec s ls = some s') :
    T.ExecMeets C s ls ∧ Good s' ∨
      ¬ T.ExecMeets C s ls ∧ Bad s' := by
  induction ls generalizing s with
  | nil =>
      simp only [exec, Option.some.injEq] at hExec
      subst hExec
      exact Or.inl ⟨trivial, hGood⟩
  | cons l ls ih =>
      rcases exec_cons hExec with ⟨next, hNext, hTail⟩
      rw [execMeets_cons hNext]
      by_cases hCond : C s l
      · rcases ih (hKeeps s l next hGood hCond hNext) hTail with
          ⟨hMeets, hEnd⟩ | ⟨hNot, hEnd⟩
        · exact Or.inl ⟨⟨hCond, hMeets⟩, hEnd⟩
        · exact Or.inr ⟨fun h => hNot h.2, hEnd⟩
      · refine Or.inr ⟨fun h => hCond h.1, ?_⟩
        apply exec_invariant Bad hStays _ hTail
        exact hLeaves s l next hGood hCond hNext

/-
  Two conditions that agree wherever an invariant holds, and
  keep it, are met by the same traces among those that meet a
  third one.
-/
theorem execMeets_iff
    {P D : State → Label → Prop}
    (Inv : State → Prop)
    (hAgree :
      ∀ s l s',
        Inv s → D s l → T.step s l = some s' →
          (P s l ↔ C s l))
    (hKeeps :
      ∀ s l s',
        Inv s → D s l → C s l → T.step s l = some s' →
          Inv s')
    {s s' : State}
    {ls : List Label}
    (hInv : Inv s)
    (hMeets : T.ExecMeets D s ls)
    (hExec : T.exec s ls = some s') :
    T.ExecMeets P s ls ↔ T.ExecMeets C s ls := by
  induction ls generalizing s with
  | nil => exact Iff.rfl
  | cons l ls ih =>
      rcases exec_cons hExec with ⟨next, hNext, hTail⟩
      rw [execMeets_cons hNext] at hMeets
      rw [execMeets_cons hNext, execMeets_cons hNext,
        hAgree s l next hInv hMeets.1 hNext]
      apply and_congr_right
      intro hCond
      have hInv' := hKeeps s l next hInv hMeets.1 hCond hNext
      exact ih hInv' hMeets.2 hTail

/- What a step cannot bring about held throughout a trace. -/
theorem execMeets_of_end
    (P : State → Prop)
    (hBack :
      ∀ s l s', T.step s l = some s' → P s' → P s)
    {s s' : State}
    {ls : List Label}
    (hExec : T.exec s ls = some s')
    (hEnd : P s') :
    P s ∧ T.ExecMeets (fun s _ => P s) s ls := by
  induction ls generalizing s with
  | nil =>
      simp only [exec, Option.some.injEq] at hExec
      subst hExec
      exact ⟨hEnd, trivial⟩
  | cons l ls ih =>
      rcases exec_cons hExec with ⟨next, hNext, hTail⟩
      rcases ih hTail with ⟨hHead, hMeets⟩
      have hFirst := hBack s l next hNext hHead
      exact
        ⟨hFirst, (execMeets_cons hNext).mpr ⟨hFirst, hMeets⟩⟩

/- A trace meets a condition if both of its parts do. -/
theorem execMeets_append
    {s s' : State}
    {first second : List Label}
    (hExec : T.exec s first = some s') :
    T.ExecMeets C s (first ++ second) ↔
      T.ExecMeets C s first ∧ T.ExecMeets C s' second := by
  induction first generalizing s with
  | nil =>
      simp only [exec, Option.some.injEq] at hExec
      subst hExec
      exact (and_iff_right trivial).symm
  | cons l first ih =>
      rcases exec_cons hExec with ⟨next, hNext, hTail⟩
      rw [List.cons_append, execMeets_cons hNext,
        execMeets_cons hNext, ih hTail, and_assoc]

/- A replayed trace reaches its end. -/
theorem reachable_of_exec
    {s s' : State}
    {ls : List Label}
    (hInit : T.Init s)
    (hExec : T.exec s ls = some s') :
    T.Reachable s' := by
  have hMeets :
      ∀ (ls : List Label) (s : State),
        T.ExecMeets (fun _ _ => True) s ls := by
    intro ls
    induction ls with
    | nil => intro s; trivial
    | cons l ls ih => exact fun s => ⟨trivial, fun s' _ => ih s'⟩
  exact
    reachableWhere_of_exec (.init hInit) (hMeets ls s) hExec

end TransitionSystem

end KDoth

------------------------------------------------------------
-- Progress
------------------------------------------------------------

namespace KDoth

namespace TransitionSystem

variable {State Label : Type}
variable {T : TransitionSystem State Label}

theorem exec_append
    {s s' : State}
    {first second : List Label}
    (hExec : T.exec s first = some s') :
    T.exec s (first ++ second) = T.exec s' second := by
  induction first generalizing s with
  | nil =>
      simp only [exec, Option.some.injEq] at hExec
      rw [hExec, List.nil_append]
  | cons l first ih =>
      rcases exec_cons hExec with ⟨next, hNext, hTail⟩
      rw [List.cons_append, exec, hNext]
      exact ih hTail

theorem Leads.refl (s : State) : T.Leads s s :=
  ⟨[], rfl⟩

theorem Leads.single
    {s s' : State}
    {l : Label}
    (hStep : T.step s l = some s') :
    T.Leads s s' := by
  refine ⟨[l], ?_⟩
  simp [exec, hStep]

theorem Leads.trans
    {s₁ s₂ s₃ : State}
    (hFirst : T.Leads s₁ s₂)
    (hSecond : T.Leads s₂ s₃) :
    T.Leads s₁ s₃ := by
  rcases hFirst with ⟨first, hFirst⟩
  rcases hSecond with ⟨second, hSecond⟩
  refine ⟨first ++ second, ?_⟩
  rw [exec_append hFirst]
  exact hSecond

theorem Reachable.leads
    {s s' : State}
    (hReach : T.Reachable s)
    (hLeads : T.Leads s s') :
    T.Reachable s' := by
  rcases hLeads with ⟨ls, hExec⟩
  apply exec_invariant T.Reachable _ hReach hExec
  intro s l s' hBefore hStep
  exact .step hBefore trivial hStep

/-
  Where a system's own steps bring a rank down and each other
  step raises it by at most `k`, there are at most so many of
  its own.
-/
theorem countP_le_of_rank
    (rank : State → Nat)
    (own : Label → Bool)
    (k : Nat)
    (hOwn :
      ∀ s l s',
        own l = true → T.step s l = some s' →
          rank s' < rank s)
    (hOther :
      ∀ s l s',
        own l = false → T.step s l = some s' →
          rank s' ≤ rank s + k)
    {s s' : State}
    {ls : List Label}
    (hExec : T.exec s ls = some s') :
    ls.countP own + rank s' ≤
      rank s + k * ls.countP (fun l => !own l) := by
  induction ls generalizing s with
  | nil =>
      simp only [exec, Option.some.injEq] at hExec
      subst hExec
      simp
  | cons l ls ih =>
      rcases exec_cons hExec with ⟨next, hNext, hTail⟩
      have hRest := ih hTail
      cases hKind : own l with
      | true =>
          have hLess := hOwn s l next hKind hNext
          rw [List.countP_cons_of_pos hKind,
            List.countP_cons_of_neg (by simp [hKind])]
          omega
      | false =>
          have hLe := hOther s l next hKind hNext
          rw [List.countP_cons_of_neg (by simp [hKind]),
            List.countP_cons_of_pos (by simp [hKind]),
            Nat.mul_succ]
          omega

/-
  Where each step pays for what it adds to a rank, and the
  system's own steps bring the rank down, there are at most
  as many of these as was paid for.
-/
theorem countP_add_rank_le
    (Inv : State → Prop)
    (rank : State → Nat)
    (own : Label → Bool)
    (price : Label → Nat)
    (hStep :
      ∀ s l s',
        Inv s → C s l → T.step s l = some s' →
          Inv s' ∧
            rank s' + (own l).toNat ≤ rank s + price l)
    {s s' : State}
    {ls : List Label}
    (hInv : Inv s)
    (hMeets : T.ExecMeets C s ls)
    (hExec : T.exec s ls = some s') :
    ls.countP own + rank s' ≤
      rank s + (ls.map price).sum := by
  induction ls generalizing s with
  | nil =>
      simp only [exec, Option.some.injEq] at hExec
      subst hExec
      simp
  | cons l ls ih =>
      rcases exec_cons hExec with ⟨next, hNext, hTail⟩
      rw [execMeets_cons hNext] at hMeets
      rcases hStep s l next hInv hMeets.1 hNext with
        ⟨hInv', hPaid⟩
      have hRest := ih hInv' hMeets.2 hTail
      rw [List.map_cons, List.sum_cons, List.countP_cons]
      cases hKind : own l with
      | true =>
          rw [hKind] at hPaid
          change _ + 1 ≤ _ at hPaid
          simp only [if_true]
          omega
      | false =>
          rw [hKind] at hPaid
          change _ + 0 ≤ _ at hPaid
          simp only [Bool.false_eq_true, if_false]
          omega

/-
  Where some steps bring a rank down until a goal is met, the
  goal can be reached.
-/
theorem leads_of_progress
    {Inv Goal : State → Prop}
    (rank : State → Nat)
    (hProgress :
      ∀ s, Inv s → Goal s ∨ T.Nears Inv rank s)
    {s : State}
    (hInv : Inv s) :
    ∃ s', T.Leads s s' ∧ Inv s' ∧ Goal s' := by
  induction hRank : rank s using Nat.strongRecOn
    generalizing s with
  | ind n ih =>
      rcases hProgress s hInv with
        hGoal | ⟨next, hLeads, hInv', hLess⟩
      · exact ⟨s, .refl s, hInv, hGoal⟩
      · rw [hRank] at hLess
        rcases ih (rank next) hLess hInv' rfl with
          ⟨s', hRest, hLast⟩
        exact ⟨s', hLeads.trans hRest, hLast⟩

end TransitionSystem

end KDoth
