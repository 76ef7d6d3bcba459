import KDoth.Threads.CriticalSections
import KDoth.Threads.KCountdownLatch

/-
  The countdown latch with every access to its count and
  every call on its condition variable as a step refines the
  latch whose critical sections are one step.

  Key definitions include:
    * `LatchEntry`
    * `latchProgram`
    * `AtomicPhase.ofLatch`
    * `KCountdownLatch.returned`

  Key theorems include:
    * `KCountdownLatch.announces`
    * `KCountdownLatch.latch_simulates`
    * `KCountdownLatch.latch_sections`
    * `KCountdownLatch.sections_gate`
-/

------------------------------------------------------------
-- The Calls on a Latch
------------------------------------------------------------

namespace KDoth

/- `KCountDownLatchCountDown` and `KCountDownLatchWait`. -/
inductive LatchEntry where
  | countDown
  | wait
deriving DecidableEq, Repr

open KCountdownLatch in
/- Their critical sections on the count. -/
def latchProgram : LatchEntry → SectionCall UInt64 Bool
| .countDown =>
    .update countDownSection fun shouldSignal =>
      if shouldSignal then .all else .none
| .wait => .await fun count => count != 0

/- The phase of the latch for that of its sections. -/
def AtomicPhase.ofLatch :
    AtomicPhase Bool LatchEntry → LatchPhase
| .outside => .outside
| .exited _ true => .signaling
| .exited _ false => .counted
| .notified _ _ => .counted
| .blocked _ => .waiting
| .awake _ => .awake
| .left _ => .passed

/- The phases that the calls on a latch have. -/
def AtomicPhase.Typed :
    AtomicPhase Bool LatchEntry → Prop
| .outside => True
| .exited c _ => c = .countDown
| .notified c _ => c = .countDown
| .blocked c => c = .wait
| .awake c => c = .wait
| .left c => c = .wait

namespace KCountdownLatch

variable {Thread : Type}

/- The calls that return. -/
def returned
    (s : KCountdownLatch Thread) :
    LatchStep Thread → Option (Thread × LatchEntry)
| .countDownReturn t =>
    if s.phase t = .counted then some (t, .countDown)
    else none
| .waitReturn t =>
    if s.phase t = .passed then some (t, .wait) else none
| _ => none

/- The latch is what its sections are. -/
structure Abstracts
    (a : CriticalSections Thread UInt64 Bool LatchEntry)
    (s : KCountdownLatch Thread) : Prop where
  count : s.count = a.data
  phase : ∀ t, s.phase t = (a.phase t).ofLatch
  typed : ∀ t, (a.phase t).Typed

/- The last count-down broadcasts. -/
theorem announces :
    KConditionVariable.Announces latchProgram := by
  intro c body notify c' predicate data hUpdate hAwait hTrue
    hFalse
  cases c with
  | wait => cases hUpdate
  | countDown =>
      cases c' with
      | countDown => cases hAwait
      | wait =>
          cases hUpdate
          cases hAwait
          have hNow : (countDownSection data).1 = 0 := by
            simpa using hFalse
          have hBefore : data ≠ 0 := by
            simpa using hTrue
          have hLast : (countDownSection data).2 = true := by
            rw [countDownSection_snd]
            have hNat := countDownSection_toNat data
            have hZero : data.toNat ≠ 0 := by
              intro hNat
              exact hBefore (UInt64.toNat_inj.mp hNat)
            rw [hNow] at hNat
            have hLess : 0 = data.toNat - 1 := hNat
            omega
          simp [hLast]

/- The count is zero once a thread is past its wait. -/
theorem Gate.count_eq_zero
    {latch : KCountdownLatch Thread}
    {t : Thread}
    {k : Nat}
    (hGate : latch.Gate k)
    (hPassed : latch.phase t = .passed) :
    latch.count.toNat = 0 := by
  have hCount := hGate.count
  cases hGate.stage with
  | closed _ _ hNone _ => exact absurd hPassed (hNone t)
  | opening _ hCompleted _ _ => omega
  | opened hCompleted _ _ _ => omega

end KCountdownLatch

end KDoth

------------------------------------------------------------
-- Refinement
------------------------------------------------------------

namespace KDoth

namespace KCountdownLatch

variable {Thread : Type} [DecidableEq Thread]
variable {a a' : CriticalSections Thread UInt64 Bool LatchEntry}
variable {s : KCountdownLatch Thread} {t : Thread}

namespace Abstracts

/- One thread goes on in both. -/
theorem setPhase
    {p : AtomicPhase Bool LatchEntry}
    (hRel : Abstracts a s)
    (hTyped : p.Typed) :
    Abstracts (a.setPhase t p) (s.setPhase t p.ofLatch) where
  count := hRel.count
  phase := by
    intro u
    by_cases hSame : u = t
    · subst hSame
      simp [KCountdownLatch.setPhase,
        CriticalSections.setPhase]
    · simpa [KCountdownLatch.setPhase,
        CriticalSections.setPhase, hSame] using hRel.phase u
  typed := by
    intro u
    by_cases hSame : u = t
    · subst hSame
      simpa [CriticalSections.setPhase] using hTyped
    · simpa [CriticalSections.setPhase, hSame] using
        hRel.typed u

/- All threads that are blocked are woken in both. -/
omit [DecidableEq Thread] in
theorem wakeAll
    {woken : Thread → Bool}
    (hRel : Abstracts a s)
    (hAll : ∀ u, woken u = a.waiting u) :
    Abstracts (a.wakeThreads woken) s.wakeAll := by
  have hPhase (u : Thread) :
      (a.wakeThreads woken).phase u = (a.phase u).wake := by
    simp only [CriticalSections.wakeThreads, hAll,
      CriticalSections.waiting]
    cases a.phase u <;> rfl
  constructor
  · exact hRel.count
  · intro u
    rw [hPhase]
    simp only [KCountdownLatch.wakeAll, hRel.phase u]
    cases a.phase u with
    | exited c value => cases value <;> rfl
    | _ => rfl
  · intro u
    have hTyped := hRel.typed u
    rw [hPhase]
    cases hOld : a.phase u with
    | _ =>
        rw [hOld] at hTyped
        exact hTyped

/- The phase of a thread is that of its sections. -/
omit [DecidableEq Thread] in
theorem phase_eq
    {p : AtomicPhase Bool LatchEntry}
    (hRel : Abstracts a s)
    (hPhase : a.phase t = p) :
    s.phase t = p.ofLatch ∧ p.Typed := by
  subst hPhase
  exact ⟨hRel.phase t, hRel.typed t⟩

/- The turn of a wait. -/
theorem turn
    (hRel : Abstracts a s) :
    Abstracts
      (if a.data != 0 then a.setPhase t (.blocked .wait)
        else a.setPhase t (.left .wait))
      (s.setPhase t s.waitTurn) := by
  by_cases hZero : a.data = 0
  · have hTurn : s.waitTurn = .passed := by
      simp [waitTurn, predicate, hRel.count, hZero]
    rw [hTurn]
    simp only [hZero, bne_self_eq_false, Bool.false_eq_true,
      if_false]
    exact hRel.setPhase (p := .left .wait) rfl
  · have hTurn : s.waitTurn = .waiting := by
      simp [waitTurn, predicate, hRel.count, hZero]
    have hTrue : (a.data != 0) = true := by
      simpa using hZero
    rw [hTurn, hTrue, if_pos rfl]
    exact hRel.setPhase (p := .blocked .wait) rfl

/- A count-down. -/
theorem countDown
    (hRel : Abstracts a s) :
    Abstracts
      { a.setPhase t
          (.exited .countDown
            (countDownSection a.data).2) with
        data := (countDownSection a.data).1 }
      (s.next (.countDown t)) := by
  have hPhases :=
    hRel.setPhase (t := t)
      (p := .exited .countDown (countDownSection a.data).2)
      rfl
  have hPhase :
      (s.next (.countDown t)).phase =
        (s.setPhase t
          (AtomicPhase.exited LatchEntry.countDown
            (countDownSection a.data).2).ofLatch).phase := by
    simp only [next, hRel.count]
    cases (countDownSection a.data).2 <;> rfl
  constructor
  · show (countDownSection s.count).1 = _
    rw [hRel.count]
  · intro u
    rw [hPhase]
    exact hPhases.phase u
  · exact hPhases.typed

end Abstracts

variable {n : UInt64}

/- The gate is kept from the new latch on. -/
theorem gate_of_reachable
    {latch : KCountdownLatch Thread}
    (hReach : (countdownLatch Thread n).Reachable latch) :
    latch.Gate n.toNat := by
  apply TransitionSystem.Reachable.invariant _ _ hReach
  · intro s hInit
    exact gate_of_new hInit
  · intro s l s' hGate hStep
    rcases step_inv hStep with ⟨hEnabled, hNext⟩
    rw [hNext]
    exact hGate.next hEnabled

variable [Fintype Thread]

/- Every step of the sections is one of the latch. -/
theorem atomic_step
    {l : AtomicStep Thread LatchEntry}
    (hRel : Abstracts a s)
    (hStep : a.step latchProgram l = some a') :
    ∃ l',
      s.Enabled l' ∧ Abstracts a' (s.next l') ∧
        returned s l' =
          (a.returned l).map fun r => (r.1, r.2.1) := by
  cases l with
  | enter t c =>
      simp only [CriticalSections.step] at hStep
      split at hStep
      · rename_i hPhase
        rcases hRel.phase_eq hPhase with ⟨hOutside, _⟩
        cases hStep
        cases c with
        | countDown =>
            exact ⟨.countDown t, hOutside, hRel.countDown, rfl⟩
        | wait => exact ⟨.wait t, hOutside, hRel.turn, rfl⟩
      · cases hStep
  | recheck t =>
      simp only [CriticalSections.step] at hStep
      split at hStep
      · rename_i c hPhase
        rcases hRel.phase_eq hPhase with ⟨hAwake, hTyped⟩
        have hWait : c = .wait := hTyped
        subst hWait
        refine ⟨.recheck t, hAwake, ?_, rfl⟩
        have hTurn := hRel.turn (t := t)
        simp only [CriticalSections.recheck, latchProgram]
          at hStep
        split at hStep
        · rename_i hTrue
          cases hStep
          rw [if_pos hTrue] at hTurn
          exact hTurn
        · rename_i hFalse
          cases hStep
          rw [if_neg hFalse] at hTurn
          exact hTurn
      · cases hStep
  | spurious t =>
      simp only [CriticalSections.step] at hStep
      split at hStep
      · rename_i c hPhase
        rcases hRel.phase_eq hPhase with ⟨hWaiting, hTyped⟩
        cases hStep
        exact
          ⟨.spurious t, hWaiting,
            hRel.setPhase (p := .awake c) hTyped, rfl⟩
      · cases hStep
  | notify t woken =>
      simp only [CriticalSections.step] at hStep
      split at hStep
      · rename_i c value hPhase
        rcases hRel.phase_eq hPhase with ⟨hExited, hTyped⟩
        have hCount : c = .countDown := hTyped
        subst hCount
        split at hStep
        · rename_i hWakes
          cases hStep
          cases value with
          | false => exact hWakes.elim
          | true =>
              have hWoken := hRel.wakeAll hWakes
              have hBoth :=
                hWoken.setPhase (t := t)
                  (p := .notified .countDown true) rfl
              exact
                ⟨.notifyAll t, hExited,
                  ⟨hBoth.count, hBoth.phase, hBoth.typed⟩,
                  rfl⟩
        · cases hStep
      · cases hStep
  | finish t =>
      have hDone :=
        hRel.setPhase (t := t) (p := .outside) trivial
      simp only [CriticalSections.step] at hStep
      split at hStep
      · rename_i c value hPhase
        rcases hRel.phase_eq hPhase with ⟨hExited, hTyped⟩
        have hCount : c = .countDown := hTyped
        subst hCount
        split at hStep
        · rename_i hNone
          cases hStep
          cases value with
          | true => cases hNone
          | false =>
              refine
                ⟨.countDownReturn t, hExited, hDone, ?_⟩
              simp [returned, hExited, AtomicPhase.ofLatch,
                CriticalSections.returned, hPhase]
        · cases hStep
      · rename_i c value hPhase
        rcases hRel.phase_eq hPhase with ⟨hCounted, hTyped⟩
        have hCount : c = .countDown := hTyped
        subst hCount
        cases hStep
        refine ⟨.countDownReturn t, hCounted, hDone, ?_⟩
        simp [returned, hCounted, AtomicPhase.ofLatch,
          CriticalSections.returned, hPhase]
      · rename_i c hPhase
        rcases hRel.phase_eq hPhase with ⟨hPassed, hTyped⟩
        have hWait : c = .wait := hTyped
        subst hWait
        cases hStep
        refine ⟨.waitReturn t, hPassed, hDone, ?_⟩
        simp [returned, hPassed, AtomicPhase.ofLatch,
          CriticalSections.returned, hPhase]
      · cases hStep

/- The latch with atomic sections is the one of one step. -/
theorem atomic_simulates
    (hPositive : n ≠ 0) :
    TransitionSystem.Simulates
      (criticalSections Thread latchProgram n)
      (fun a l => (a.returned l).map fun r => (r.1, r.2.1))
      (countdownLatch Thread n) returned Abstracts where
  init := by
    rintro a rfl
    refine ⟨_, if_neg hPositive, rfl, ?_, ?_⟩
    · intro t
      rfl
    · intro t
      trivial
  step := by
    intro a l a' s hRel hStep
    rcases atomic_step hRel hStep with
      ⟨l', hEnabled, hNext, hSeen⟩
    have hTaken :
        (countdownLatch Thread n).step s l' =
          some (s.next l') :=
      if_pos hEnabled
    rcases TransitionSystem.exec_single returned hTaken with
      ⟨hExec, hObserve⟩
    refine ⟨[l'], s.next l', hExec, ?_, hNext⟩
    rw [hObserve, hSeen]

/- The latch is what the sections of the threads are. -/
def Refines
    (s : KConditionVariable Thread UInt64 Bool LatchEntry)
    (latch : KCountdownLatch Thread) : Prop :=
  ∃ a,
    (KConditionVariable.Exclusive latchProgram s ∧
        a = s.sections) ∧
      Abstracts a latch

variable (Thread) in
/- The latch with every access as a step refines it as well. -/
theorem latch_simulates
    (hPositive : n ≠ 0) :
    TransitionSystem.Simulates
      (conditionVariable Thread latchProgram n)
      (fun s l => (s.returned l).map fun r => (r.1, r.2.1))
      (countdownLatch Thread n) returned Refines :=
  ((KConditionVariable.sections_simulate Thread
    latchProgram n).map fun r => (r.1, r.2.1)).comp
      (atomic_simulates hPositive)

/-
  A run of the latch in which threads read and write its
  count, test it, block and are woken step by step is a run
  of the latch with atomic sections: the same calls return in
  the same order, with the same count in the end, and a
  thread is past its wait in the one if it is in the other.
-/
theorem latch_sections
    {ls : List (SectionStep Thread LatchEntry)}
    {s : KConditionVariable Thread UInt64 Bool LatchEntry}
    (hPositive : n ≠ 0)
    (hExec :
      (conditionVariable Thread latchProgram n).exec
        (.idle n) ls = some s) :
    ∃ start ls' latch,
      new n = some start ∧
        (countdownLatch Thread n).exec start ls' =
            some latch ∧
          (countdownLatch Thread n).observe returned start
                ls' =
              ((conditionVariable Thread latchProgram
                n).observe KConditionVariable.returned
                  (.idle n) ls).map (fun r => (r.1, r.2.1)) ∧
            latch.count = s.data ∧
              ∀ t,
                latch.phase t = (s.phase t).atomic.ofLatch := by
  have hSim := latch_simulates Thread hPositive
  rcases hSim.init _ rfl with ⟨start, hStart, hRel⟩
  rcases hSim.exec hRel hExec with
    ⟨ls', latch, hAbove, hSeen, a, ⟨_, rfl⟩, hEnd⟩
  rw [TransitionSystem.observe_map] at hSeen
  exact
    ⟨start, ls', latch, hStart, hAbove, hSeen, hEnd.count,
      hEnd.phase⟩

/- One thread waits for the only count-down, of another. -/
theorem latch_sections_of_two :
    ∃ s : KConditionVariable (Fin 2) UInt64 Bool LatchEntry,
      s.data = 0 ∧
        ∃ start ls' latch,
          new 1 = some start ∧
            (countdownLatch (Fin 2) 1).exec start ls' =
                some latch ∧
              (countdownLatch (Fin 2) 1).observe returned
                    start ls' =
                  [(0, .countDown), (1, .wait)] ∧
                latch.count = s.data ∧
                  ∀ t,
                    latch.phase t =
                      (s.phase t).atomic.ofLatch := by
  have hExec :
      (conditionVariable (Fin 2) latchProgram 1).exec
          (.idle 1)
          [.call 1 .wait, .enter 1, .access 1, .block 1,
            .call 0 .countDown, .enter 0, .access 0,
            .access 0, .exit 0, .notify 0 (· == 1),
            .finish 0, .enter 1, .access 1, .exit 1,
            .finish 1] = some _ := rfl
  exact ⟨_, rfl, latch_sections (by decide) hExec⟩

/-
  In every state of the latch that is reached step by step, a
  thread is past its wait only once the count is zero, and a
  thread that is blocked at zero has a broadcast coming.
-/
theorem sections_gate
    {s : KConditionVariable Thread UInt64 Bool LatchEntry}
    (hPositive : n ≠ 0)
    (hReach :
      (conditionVariable Thread latchProgram n).Reachable
        s) :
    (∀ t c, (s.phase t).atomic = .left c → s.data = 0) ∧
      ∀ t c, s.phase t = .blocked c → s.data = 0 →
        ∃ u, KConditionVariable.Announcing latchProgram s u :=
  by
  have hSim := latch_simulates Thread hPositive
  rcases hSim.reachable hReach with
    ⟨latch, hAbove, a, ⟨_, rfl⟩, hRel⟩
  constructor
  · intro t c hLeft
    have hPassed : latch.phase t = .passed := by
      rw [hRel.phase t]
      show (s.phase t).atomic.ofLatch = .passed
      rw [hLeft]
      rfl
    have hZero : latch.count.toNat = 0 :=
      (gate_of_reachable hAbove).count_eq_zero hPassed
    have hData : s.data.toNat = 0 := by
      rw [← hZero, hRel.count]
      rfl
    exact UInt64.toNat_inj.mp hData
  · intro t c hBlocked hZero
    have hTyped := hRel.typed t
    have hWait : c = .wait := by
      have hPhase :
          s.sections.phase t = .blocked c := by
        show (s.phase t).atomic = _
        rw [hBlocked]
        rfl
      rw [hPhase] at hTyped
      exact hTyped
    subst hWait
    have hCovered :=
      KConditionVariable.Covered.of_reachable announces hReach
    exact hCovered t .wait _ hBlocked rfl (by simp [hZero])

/- A thread is blocked when the last count-down was made. -/
theorem sections_gate_at_zero :
    ∃ s : KConditionVariable (Fin 2) UInt64 Bool LatchEntry,
      s.phase 1 = .blocked .wait ∧
        s.data = 0 ∧
          ∃ u,
            KConditionVariable.Announcing latchProgram s u := by
  have hExec :
      (conditionVariable (Fin 2) latchProgram 1).exec
          (.idle 1)
          [.call 1 .wait, .enter 1, .access 1, .block 1,
            .call 0 .countDown, .enter 0, .access 0,
            .access 0] = some _ := rfl
  have hReach :=
    TransitionSystem.reachable_of_exec rfl hExec
  have hGate := sections_gate (by decide) hReach
  exact ⟨_, rfl, rfl, hGate.2 1 .wait rfl rfl⟩

end KCountdownLatch

end KDoth
