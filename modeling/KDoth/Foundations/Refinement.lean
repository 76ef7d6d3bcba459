import KDoth.Foundations.TransitionSystem

/-
  Refinement of transition systems whose steps may be seen
  from outside. Every step of the lower system is matched by
  steps of the upper one that look the same, among them none
  at all.

  Key definitions include:
    * `TransitionSystem.observe`
    * `TransitionSystem.Simulates`

  Key theorems include:
    * `TransitionSystem.observe_append`
    * `TransitionSystem.Simulates.exec`
    * `TransitionSystem.Simulates.reachable`
    * `TransitionSystem.Simulates.map`
    * `TransitionSystem.Simulates.comp`
-/

------------------------------------------------------------
-- Observations
------------------------------------------------------------

namespace KDoth

namespace TransitionSystem

variable {State Label Obs : Type}

/- What is seen of a replayed trace. -/
def observe
    (T : TransitionSystem State Label)
    (obs : State → Label → Option Obs) :
    State → List Label → List Obs
| _, [] => []
| s, l :: ls =>
    match T.step s l with
    | none => []
    | some s' => (obs s l).toList ++ T.observe obs s' ls

variable {T : TransitionSystem State Label}
variable {obs : State → Label → Option Obs}
variable {s s' : State} {l : Label} {ls ls' : List Label}

/- A trace that goes on is seen part by part. -/
theorem observe_append
    (hFirst : T.exec s ls = some s') :
    T.observe obs s (ls ++ ls') =
      T.observe obs s ls ++ T.observe obs s' ls' := by
  induction ls generalizing s with
  | nil =>
      cases hFirst
      rfl
  | cons l ls ih =>
      rcases exec_cons hFirst with ⟨t, hStep, hTail⟩
      simp only [List.cons_append, observe, hStep,
        ih hTail, List.append_assoc]

theorem observe_map
    {Obs' : Type}
    (f : Obs → Obs')
    (s : State)
    (ls : List Label) :
    T.observe (fun s l => (obs s l).map f) s ls =
      (T.observe obs s ls).map f := by
  induction ls generalizing s with
  | nil => rfl
  | cons l ls ih =>
      cases hStep : T.step s l with
      | none => simp [observe, hStep]
      | some s' =>
          simp only [observe, hStep, ih, List.map_append,
            Option.toList_map]

/- A trace of one step. -/
theorem exec_single
    (obs : State → Label → Option Obs)
    (hStep : T.step s l = some s') :
    T.exec s [l] = some s' ∧
      T.observe obs s [l] = (obs s l).toList := by
  constructor
  · simp only [exec, hStep]
  · simp only [observe, hStep, List.append_nil]

end TransitionSystem

end KDoth

------------------------------------------------------------
-- Simulation
------------------------------------------------------------

namespace KDoth

namespace TransitionSystem

variable {State Label State' Label' State'' Label'' : Type}
variable {Obs : Type}

/- Related states go on being related, and look the same. -/
structure Simulates
    (T : TransitionSystem State Label)
    (obs : State → Label → Option Obs)
    (U : TransitionSystem State' Label')
    (obs' : State' → Label' → Option Obs)
    (R : State → State' → Prop) : Prop where
  init : ∀ s, T.Init s → ∃ u, U.Init u ∧ R s u
  step :
    ∀ s l s' u,
      R s u → T.step s l = some s' →
        ∃ ls u',
          U.exec u ls = some u' ∧
            U.observe obs' u ls = (obs s l).toList ∧ R s' u'

namespace Simulates

variable {T : TransitionSystem State Label}
variable {U : TransitionSystem State' Label'}
variable {V : TransitionSystem State'' Label''}
variable {obs : State → Label → Option Obs}
variable {obs' : State' → Label' → Option Obs}
variable {obs'' : State'' → Label'' → Option Obs}
variable {R : State → State' → Prop}
variable {Q : State' → State'' → Prop}

/- A whole trace is matched by one that looks the same. -/
theorem exec
    {s s' : State}
    {u : State'}
    {ls : List Label}
    (hSim : Simulates T obs U obs' R)
    (hRel : R s u)
    (hExec : T.exec s ls = some s') :
    ∃ ls' u',
      U.exec u ls' = some u' ∧
        U.observe obs' u ls' = T.observe obs s ls ∧
          R s' u' := by
  induction ls generalizing s u with
  | nil =>
      cases hExec
      exact ⟨[], u, rfl, rfl, hRel⟩
  | cons l ls ih =>
      rcases exec_cons hExec with ⟨t, hStep, hTail⟩
      rcases hSim.step s l t u hRel hStep with
        ⟨first, u₁, hFirst, hSeen, hNext⟩
      rcases ih hNext hTail with
        ⟨rest, u₂, hRest, hSeenToo, hEnd⟩
      refine ⟨first ++ rest, u₂, ?_, ?_, hEnd⟩
      · rw [exec_append hFirst]
        exact hRest
      · rw [observe_append hFirst, hSeen, hSeenToo]
        simp only [observe, hStep]

/- What is reached below is related to what is reached above. -/
theorem reachable
    {s : State}
    (hSim : Simulates T obs U obs' R)
    (hReach : T.Reachable s) :
    ∃ u, U.Reachable u ∧ R s u := by
  apply hReach.invariant
  · intro s hInit
    rcases hSim.init s hInit with ⟨u, hInitToo, hRel⟩
    exact ⟨u, .init hInitToo, hRel⟩
  · rintro s l s' ⟨u, hReachToo, hRel⟩ hStep
    rcases hSim.step s l s' u hRel hStep with
      ⟨ls, u', hExec, _, hNext⟩
    refine ⟨u', ?_, hNext⟩
    exact exec_invariant U.Reachable
      (fun t l t' hMid hGoes => .step hMid trivial hGoes)
      hReachToo hExec

/- Less may be seen of both systems. -/
theorem map
    {Obs' : Type}
    (hSim : Simulates T obs U obs' R)
    (f : Obs → Obs') :
    Simulates T (fun s l => (obs s l).map f)
      U (fun u l => (obs' u l).map f) R where
  init := hSim.init
  step := by
    intro s l s' u hRel hStep
    rcases hSim.step s l s' u hRel hStep with
      ⟨ls, u', hExec, hSeen, hNext⟩
    refine ⟨ls, u', hExec, ?_, hNext⟩
    rw [observe_map, hSeen, Option.toList_map]

/- Refinements are put on top of each other. -/
theorem comp
    (hLow : Simulates T obs U obs' R)
    (hHigh : Simulates U obs' V obs'' Q) :
    Simulates T obs V obs'' fun s v => ∃ u, R s u ∧ Q u v where
  init := by
    intro s hInit
    rcases hLow.init s hInit with ⟨u, hMid, hRel⟩
    rcases hHigh.init u hMid with ⟨v, hTop, hRelToo⟩
    exact ⟨v, hTop, u, hRel, hRelToo⟩
  step := by
    rintro s l s' v ⟨u, hRel, hRelToo⟩ hStep
    rcases hLow.step s l s' u hRel hStep with
      ⟨ls, u', hExec, hSeen, hNext⟩
    rcases hHigh.exec hRelToo hExec with
      ⟨ls', v', hTop, hSeenToo, hNextToo⟩
    exact
      ⟨ls', v', hTop, hSeenToo.trans hSeen, u', hNext,
        hNextToo⟩

end Simulates

end TransitionSystem

end KDoth
