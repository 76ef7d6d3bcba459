import Mathlib.Logic.Function.Basic
import KDoth.Foundations.TransitionSystem

/-
  The countdown latch as a transition system over the threads
  that count down and wait. A critical section is one step.
  The broadcast comes after it, in a step of its own, and a
  blocked wait may wake at any time.

  Key definitions include:
    * `LatchPhase`
    * `KCountdownLatch`
    * `KCountdownLatch.new`
    * `KCountdownLatch.countDownSection`
    * `LatchStep`
    * `KCountdownLatch.next`
    * `countdownLatch`
    * `KCountdownLatch.Stage`

  Key theorems include:
    * `KCountdownLatch.step_inv`
    * `KCountdownLatch.Gate.next`
    * `KCountdownLatch.gate`
-/

------------------------------------------------------------
-- State
------------------------------------------------------------

namespace KDoth

/- Where a thread is in its calls on a latch. -/
inductive LatchPhase where
  /- In no call. -/
  | outside
  /- Out of the critical section, with `should_signal` set. -/
  | signaling
  /- Out of the critical section, with nothing left to do. -/
  | counted
  /- Blocked on the condition variable. -/
  | waiting
  /- Woken, without the mutex. -/
  | awake
  /- Out of the critical section of `KCountDownLatchWait`. -/
  | passed
deriving DecidableEq

/-
  The latch with the threads that use it. The last two fields
  record the critical sections of `KCountDownLatchCountDown`
  that were completed and the broadcasts that were made.
-/
structure KCountdownLatch (Thread : Type) where
  count : UInt64
  phase : Thread → LatchPhase
  completed : Nat
  broadcasts : Nat

namespace KCountdownLatch

variable {Thread : Type}

/- `KCountdownLatchNew`, with NULL as `none`. -/
def new (count : UInt64) : Option (KCountdownLatch Thread) :=
  if count = 0 then none
  else
    some
      { count := count
        phase := fun _ => .outside
        completed := 0
        broadcasts := 0 }

/-
  The `switch` of `KCountDownLatchCountDown`: the new count
  and `should_signal`.
-/
def countDownSection (count : UInt64) : UInt64 × Bool :=
  match count with
  | 0 => (count, false)
  | 1 => (count - 1, true)
  | _ => (count - 1, false)

/- `KCountDownLatchCVPredicate` -/
def predicate (s : KCountdownLatch Thread) : Bool :=
  s.count != 0

/-
  One turn of the loop of `KConditionVariableWait`: it ends
  or blocks.
-/
def waitTurn (s : KCountdownLatch Thread) : LatchPhase :=
  if !s.predicate then .passed else .waiting

end KCountdownLatch

end KDoth

------------------------------------------------------------
-- Steps
------------------------------------------------------------

namespace KDoth

inductive LatchStep (Thread : Type) where
  | countDown (t : Thread)
  | notifyAll (t : Thread)
  | countDownReturn (t : Thread)
  | wait (t : Thread)
  | spurious (t : Thread)
  | recheck (t : Thread)
  | waitReturn (t : Thread)
deriving DecidableEq

namespace KCountdownLatch

variable {Thread : Type}

def Enabled
    (s : KCountdownLatch Thread) :
    LatchStep Thread → Prop
| .countDown t => s.phase t = .outside
| .notifyAll t => s.phase t = .signaling
| .countDownReturn t => s.phase t = .counted
| .wait t => s.phase t = .outside
| .spurious t => s.phase t = .waiting
| .recheck t => s.phase t = .awake
| .waitReturn t => s.phase t = .passed

instance
    (s : KCountdownLatch Thread)
    (l : LatchStep Thread) :
    Decidable (s.Enabled l) := by
  cases l <;> unfold Enabled <;> infer_instance

variable [DecidableEq Thread]

/- One thread goes on. -/
def setPhase
    (s : KCountdownLatch Thread)
    (t : Thread)
    (p : LatchPhase) :
    KCountdownLatch Thread :=
  { s with phase := Function.update s.phase t p }

/- Every thread blocked on the condition variable wakes. -/
def wakeAll
    (s : KCountdownLatch Thread) :
    KCountdownLatch Thread :=
  { s with
    phase := fun t =>
      if s.phase t = .waiting then .awake else s.phase t }

def next
    (s : KCountdownLatch Thread) :
    LatchStep Thread → KCountdownLatch Thread
| .countDown t =>
    let r := countDownSection s.count
    { s.setPhase t (if r.2 then .signaling else .counted) with
      count := r.1
      completed := s.completed + 1 }
| .notifyAll t =>
    { s.wakeAll.setPhase t .counted with
      broadcasts := s.broadcasts + 1 }
| .countDownReturn t => s.setPhase t .outside
| .wait t => s.setPhase t s.waitTurn
| .spurious t => s.setPhase t .awake
| .recheck t => s.setPhase t s.waitTurn
| .waitReturn t => s.setPhase t .outside

end KCountdownLatch

/- A latch that starts at a count. -/
def countdownLatch
    (Thread : Type)
    [DecidableEq Thread]
    (n : UInt64) :
    TransitionSystem (KCountdownLatch Thread)
      (LatchStep Thread) where
  Init s := KCountdownLatch.new n = some s
  step s l := if s.Enabled l then some (s.next l) else none

end KDoth

------------------------------------------------------------
-- What a Step Does
------------------------------------------------------------

namespace KDoth

namespace KCountdownLatch

variable {Thread : Type} [DecidableEq Thread]
variable {n : UInt64} {s s' : KCountdownLatch Thread}
variable {l : LatchStep Thread}

theorem step_inv
    (hStep : (countdownLatch Thread n).step s l = some s') :
    s.Enabled l ∧ s' = s.next l := by
  by_cases hEnabled : s.Enabled l
  · simp only [countdownLatch, if_pos hEnabled,
      Option.some.injEq] at hStep
    exact ⟨hEnabled, hStep.symm⟩
  · simp [countdownLatch, hEnabled] at hStep

omit [DecidableEq Thread] in
theorem new_inv
    (hNew : new n = some s) :
    n ≠ 0 ∧ s.count = n ∧ s.completed = 0 ∧
      s.broadcasts = 0 ∧ ∀ t, s.phase t = .outside := by
  by_cases hZero : n = 0
  · simp [new, hZero] at hNew
  · simp only [new, if_neg hZero, Option.some.injEq] at hNew
    subst hNew
    exact ⟨hZero, rfl, rfl, rfl, fun _ => rfl⟩

/- A count of zero stays, and any other loses one. -/
theorem countDownSection_toNat
    (count : UInt64) :
    (countDownSection count).1.toNat = count.toNat - 1 := by
  by_cases hZero : count = 0
  · subst hZero
    rfl
  · have hOne : (1 : UInt64) ≤ count := by
      have hNe : count.toNat ≠ 0 := by
        intro hNat
        exact hZero (UInt64.toNat_inj.mp hNat)
      rw [UInt64.le_iff_toNat_le]
      show 1 ≤ count.toNat
      omega
    have hMinus : (countDownSection count).1 = count - 1 := by
      unfold countDownSection
      split <;> simp_all
    rw [hMinus, UInt64.toNat_sub_of_le _ _ hOne]
    rfl

/- Only the count that reaches zero has to signal. -/
theorem countDownSection_snd
    (count : UInt64) :
    (countDownSection count).2 = true ↔ count.toNat = 1 := by
  have hOne : count.toNat = 1 ↔ count = 1 :=
    UInt64.toNat_inj (b := 1)
  rw [hOne]
  unfold countDownSection
  split <;> simp_all

/- A turn of the wait ends exactly if the count is zero. -/
omit [DecidableEq Thread] in
theorem waitTurn_cases
    (s : KCountdownLatch Thread) :
    (s.count.toNat = 0 ∧ s.waitTurn = .passed) ∨
      (s.count.toNat ≠ 0 ∧ s.waitTurn = .waiting) := by
  have hZero : s.count.toNat = 0 ↔ s.count = 0 :=
    UInt64.toNat_inj (b := 0)
  by_cases hCount : s.count = 0
  · left
    simp [waitTurn, predicate, hCount]
  · right
    refine ⟨fun hNat => hCount (hZero.mp hNat), ?_⟩
    simp [waitTurn, predicate, hCount]

/-
  A step completes a critical section that counts down, sends
  the broadcast, or moves one thread on without either.
-/
inductive Moves
    (s : KCountdownLatch Thread)
    (l : LatchStep Thread) : Prop
| counts (t : Thread)
    (hPhase : s.phase t = .outside)
    (hStep : l = .countDown t)
| broadcasts (t : Thread)
    (hPhase : s.phase t = .signaling)
    (hStep : l = .notifyAll t)
| goes (t : Thread) (p : LatchPhase)
    (hFrom : s.phase t ≠ .signaling)
    (hTo : p ≠ .signaling)
    (hWaits : p = .waiting → s.count.toNat ≠ 0)
    (hPasses : p = .passed → s.count.toNat = 0)
    (hNext : s.next l = s.setPhase t p)

/- A turn of the wait moves one thread. -/
theorem moves_of_waitTurn
    {t : Thread}
    (hFrom : s.phase t ≠ .signaling)
    (hNext : s.next l = s.setPhase t s.waitTurn) :
    s.Moves l := by
  rcases waitTurn_cases s with ⟨hZero, hTurn⟩ | ⟨hPos, hTurn⟩
  · rw [hTurn] at hNext
    exact
      .goes t .passed hFrom nofun nofun (fun _ => hZero) hNext
  · rw [hTurn] at hNext
    exact
      .goes t .waiting hFrom nofun (fun _ => hPos) nofun hNext

theorem moves
    (hEnabled : s.Enabled l) :
    s.Moves l := by
  cases l with
  | countDown t => exact .counts t hEnabled rfl
  | notifyAll t => exact .broadcasts t hEnabled rfl
  | wait t
  | recheck t =>
      have hPhase : s.phase t = _ := hEnabled
      apply moves_of_waitTurn (t := t) _ rfl
      rw [hPhase]
      nofun
  | countDownReturn t
  | waitReturn t =>
      have hPhase : s.phase t = _ := hEnabled
      refine .goes t .outside ?_ nofun nofun nofun rfl
      rw [hPhase]
      nofun
  | spurious t =>
      have hPhase : s.phase t = _ := hEnabled
      refine .goes t .awake ?_ nofun nofun nofun rfl
      rw [hPhase]
      nofun

end KCountdownLatch

end KDoth

------------------------------------------------------------
-- Phases After a Step
------------------------------------------------------------

namespace KDoth

namespace KCountdownLatch

variable {Thread : Type} [DecidableEq Thread]
variable {s : KCountdownLatch Thread}
variable {t u : Thread} {p : LatchPhase}

@[simp] theorem setPhase_self :
    (s.setPhase t p).phase t = p := by
  simp [setPhase]

theorem setPhase_of_ne
    (hNe : u ≠ t) :
    (s.setPhase t p).phase u = s.phase u := by
  simp [setPhase, hNe]

/- Only the thread that moves takes a new phase. -/
theorem phase_setPhase_eq
    {q : LatchPhase}
    (hPhase : (s.setPhase t p).phase u = q) :
    (u = t ∧ p = q) ∨ (u ≠ t ∧ s.phase u = q) := by
  by_cases hSelf : u = t
  · subst hSelf
    rw [setPhase_self] at hPhase
    exact .inl ⟨rfl, hPhase⟩
  · rw [setPhase_of_ne hSelf] at hPhase
    exact .inr ⟨hSelf, hPhase⟩

omit [DecidableEq Thread] in
theorem phase_wakeAll_ne_waiting :
    s.wakeAll.phase u ≠ .waiting := by
  intro hPhase
  by_cases hWaiting : s.phase u = .waiting
  · simp [wakeAll, hWaiting] at hPhase
  · simp [wakeAll, hWaiting] at hPhase

/- A broadcast wakes and does nothing else. -/
omit [DecidableEq Thread] in
theorem phase_wakeAll_eq
    {q : LatchPhase}
    (hPhase : s.wakeAll.phase u = q)
    (hNot : q ≠ .awake) :
    s.phase u = q := by
  by_cases hWaiting : s.phase u = .waiting
  · simp only [wakeAll, if_pos hWaiting] at hPhase
    exact absurd hPhase.symm hNot
  · simpa [wakeAll, hWaiting] using hPhase

end KCountdownLatch

end KDoth

------------------------------------------------------------
-- The Gate
------------------------------------------------------------

namespace KDoth

namespace KCountdownLatch

variable {Thread : Type} [DecidableEq Thread]

/-
  The gate is closed until the last count-down, then one
  thread is about to open it, and then it is open for good.
-/
inductive Stage
    (n : Nat)
    (s : KCountdownLatch Thread) : Prop
| closed
    (hCompleted : s.completed < n)
    (hSignaling : ∀ t, s.phase t ≠ .signaling)
    (hPassed : ∀ t, s.phase t ≠ .passed)
    (hBroadcasts : s.broadcasts = 0)
| opening (t : Thread)
    (hCompleted : n ≤ s.completed)
    (hSignaling : ∀ u, s.phase u = .signaling ↔ u = t)
    (hBroadcasts : s.broadcasts = 0)
| opened
    (hCompleted : n ≤ s.completed)
    (hSignaling : ∀ t, s.phase t ≠ .signaling)
    (hWaiting : ∀ t, s.phase t ≠ .waiting)
    (hBroadcasts : s.broadcasts = 1)

/- The count is what the stage says. -/
structure Gate
    (n : Nat)
    (s : KCountdownLatch Thread) : Prop where
  count : s.count.toNat = n - s.completed
  stage : s.Stage n

variable {n : Nat} {s : KCountdownLatch Thread}
variable {l : LatchStep Thread}

omit [DecidableEq Thread] in
theorem gate_of_new
    {n : UInt64}
    (hNew : new n = some s) :
    s.Gate n.toNat := by
  rcases new_inv hNew with
    ⟨hNe, hCount, hCompleted, hBroadcasts, hOutside⟩
  have hPos : n.toNat ≠ 0 := by
    intro hNat
    exact hNe (UInt64.toNat_inj.mp hNat)
  refine ⟨?_, .closed ?_ ?_ ?_ hBroadcasts⟩
  · rw [hCount, hCompleted]
    rfl
  · omega
  · intro t
    rw [hOutside t]
    nofun
  · intro t
    rw [hOutside t]
    nofun

/- The phase of a thread after its critical section. -/
theorem phase_countDown
    {t : Thread}
    {p : LatchPhase}
    (hEq :
      (if (countDownSection s.count).2 then
          LatchPhase.signaling else .counted) = p) :
    (s.next (.countDown t)).phase = (s.setPhase t p).phase := by
  subst hEq
  rfl

/- The critical section that takes the last unit. -/
theorem Gate.countDown_last
    {t : Thread}
    (hGate : s.Gate n)
    (hLast : (countDownSection s.count).2 = true) :
    (s.next (.countDown t)).Stage n := by
  have hCountEq := hGate.count
  have hOne := (countDownSection_snd s.count).mp hLast
  have hPhaseNext :=
    phase_countDown (s := s) (t := t) (if_pos hLast)
  cases hGate.stage with
  | closed hCompleted hSignaling hPassed hBroadcasts =>
      refine .opening t ?_ ?_ hBroadcasts
      · show n ≤ s.completed + 1
        omega
      · intro u
        rw [hPhaseNext]
        constructor
        · intro hNext
          rcases phase_setPhase_eq hNext with
            ⟨hSelf, _⟩ | ⟨_, hOther⟩
          · exact hSelf
          · exact absurd hOther (hSignaling u)
        · intro hSelf
          rw [hSelf, setPhase_self]
  | opening u hCompleted hSignaling hBroadcasts => omega
  | opened hCompleted hSignaling hWaiting hBroadcasts =>
      omega

/- A critical section that takes another unit, or none. -/
theorem Gate.countDown_more
    {t : Thread}
    (hGate : s.Gate n)
    (hPhase : s.phase t = .outside)
    (hMore : (countDownSection s.count).2 ≠ true) :
    (s.next (.countDown t)).Stage n := by
  have hCountEq := hGate.count
  have hNotOne : s.count.toNat ≠ 1 := fun hOne =>
    hMore ((countDownSection_snd s.count).mpr hOne)
  have hPhaseNext :=
    phase_countDown (s := s) (t := t) (if_neg hMore)
  have hOther :
      ∀ u q, q ≠ .counted →
        (s.next (.countDown t)).phase u = q →
          s.phase u = q := by
    intro u q hNot hNext
    rw [hPhaseNext] at hNext
    rcases phase_setPhase_eq hNext with
      ⟨_, hSelf⟩ | ⟨_, hSame⟩
    · exact absurd hSelf.symm hNot
    · exact hSame
  cases hGate.stage with
  | closed hCompleted hSignaling hPassed hBroadcasts =>
      refine .closed ?_ ?_ ?_ hBroadcasts
      · show s.completed + 1 < n
        omega
      · intro u hNext
        exact hSignaling u (hOther u _ nofun hNext)
      · intro u hNext
        exact hPassed u (hOther u _ nofun hNext)
  | opening v hCompleted hSignaling hBroadcasts =>
      refine .opening v ?_ ?_ hBroadcasts
      · show n ≤ s.completed + 1
        omega
      · intro u
        constructor
        · intro hNext
          exact (hSignaling u).mp (hOther u _ nofun hNext)
        · intro hSelf
          have hSignals := (hSignaling u).mpr hSelf
          have hNe : u ≠ t := by
            intro hSame
            rw [hSame, hPhase] at hSignals
            cases hSignals
          rw [hPhaseNext, setPhase_of_ne hNe]
          exact hSignals
  | opened hCompleted hSignaling hWaiting hBroadcasts =>
      refine .opened ?_ ?_ ?_ hBroadcasts
      · show n ≤ s.completed + 1
        omega
      · intro u hNext
        exact hSignaling u (hOther u _ nofun hNext)
      · intro u hNext
        exact hWaiting u (hOther u _ nofun hNext)

/- A critical section that counts down. -/
theorem Gate.countDown
    {t : Thread}
    (hGate : s.Gate n)
    (hPhase : s.phase t = .outside) :
    (s.next (.countDown t)).Gate n := by
  have hCountEq := hGate.count
  have hSection := countDownSection_toNat s.count
  have hCount :
      (s.next (.countDown t)).count.toNat =
        n - (s.completed + 1) := by
    show (countDownSection s.count).1.toNat = _
    omega
  refine ⟨hCount, ?_⟩
  by_cases hLast : (countDownSection s.count).2 = true
  · exact hGate.countDown_last hLast
  · exact hGate.countDown_more hPhase hLast

/- The broadcast opens the gate. -/
theorem Gate.notifyAll
    {t : Thread}
    (hGate : s.Gate n)
    (hPhase : s.phase t = .signaling) :
    (s.next (.notifyAll t)).Gate n := by
  have hNext :
      (s.next (.notifyAll t)).phase =
        (s.wakeAll.setPhase t .counted).phase := rfl
  refine ⟨hGate.count, ?_⟩
  cases hGate.stage with
  | closed hCompleted hSignaling hPassed hBroadcasts =>
      exact absurd hPhase (hSignaling t)
  | opening v hCompleted hSignaling hBroadcasts =>
      refine .opened hCompleted ?_ ?_ ?_
      · intro u hSignals
        rw [hNext] at hSignals
        rcases phase_setPhase_eq hSignals with
          ⟨_, hBad⟩ | ⟨hNe, hWoken⟩
        · cases hBad
        · have hBefore := phase_wakeAll_eq hWoken nofun
          apply hNe
          rw [(hSignaling u).mp hBefore,
            (hSignaling t).mp hPhase]
      · intro u hWaits
        rw [hNext] at hWaits
        rcases phase_setPhase_eq hWaits with
          ⟨_, hBad⟩ | ⟨_, hWoken⟩
        · cases hBad
        · exact phase_wakeAll_ne_waiting hWoken
      · show s.broadcasts + 1 = 1
        omega
  | opened hCompleted hSignaling hWaiting hBroadcasts =>
      exact absurd hPhase (hSignaling t)

/- A thread that moves on leaves the gate as it is. -/
theorem Gate.setPhase
    {t : Thread}
    {p : LatchPhase}
    (hGate : s.Gate n)
    (hFrom : s.phase t ≠ .signaling)
    (hTo : p ≠ .signaling)
    (hWaits : p = .waiting → s.count.toNat ≠ 0)
    (hPasses : p = .passed → s.count.toNat = 0) :
    (s.setPhase t p).Gate n := by
  have hCountEq := hGate.count
  have hSignalsNext :
      ∀ u, (s.setPhase t p).phase u = .signaling →
        s.phase u = .signaling := by
    intro u hNext
    rcases phase_setPhase_eq hNext with
      ⟨_, hBad⟩ | ⟨_, hSame⟩
    · exact absurd hBad hTo
    · exact hSame
  refine ⟨hGate.count, ?_⟩
  cases hGate.stage with
  | closed hCompleted hSignaling hPassed hBroadcasts =>
      refine .closed hCompleted ?_ ?_ hBroadcasts
      · intro u hNext
        exact hSignaling u (hSignalsNext u hNext)
      · intro u hNext
        rcases phase_setPhase_eq hNext with
          ⟨_, hSelf⟩ | ⟨_, hSame⟩
        · have hZero := hPasses hSelf
          omega
        · exact hPassed u hSame
  | opening v hCompleted hSignaling hBroadcasts =>
      refine .opening v hCompleted ?_ hBroadcasts
      intro u
      constructor
      · intro hNext
        exact (hSignaling u).mp (hSignalsNext u hNext)
      · intro hSelf
        have hSignals := (hSignaling u).mpr hSelf
        have hNe : u ≠ t := by
          intro hSame
          rw [hSame] at hSignals
          exact hFrom hSignals
        rw [setPhase_of_ne hNe]
        exact hSignals
  | opened hCompleted hSignaling hWaiting hBroadcasts =>
      refine .opened hCompleted ?_ ?_ hBroadcasts
      · intro u hNext
        exact hSignaling u (hSignalsNext u hNext)
      · intro u hNext
        rcases phase_setPhase_eq hNext with
          ⟨_, hSelf⟩ | ⟨_, hSame⟩
        · have hPos := hWaits hSelf
          omega
        · exact hWaiting u hSame

/- Every step keeps the gate. -/
theorem Gate.next
    (hGate : s.Gate n)
    (hEnabled : s.Enabled l) :
    (s.next l).Gate n := by
  cases moves hEnabled with
  | counts t hPhase hStep =>
      rw [hStep]
      exact hGate.countDown hPhase
  | broadcasts t hPhase hStep =>
      rw [hStep]
      exact hGate.notifyAll hPhase
  | goes t p hFrom hTo hWaits hPasses hNext =>
      rw [hNext]
      exact hGate.setPhase hFrom hTo hWaits hPasses

/- No step raises the count. -/
theorem count_next_le
    (hEnabled : s.Enabled l) :
    (s.next l).count.toNat ≤ s.count.toNat := by
  cases moves hEnabled with
  | counts t hPhase hStep =>
      rw [hStep]
      show (countDownSection s.count).1.toNat ≤ _
      rw [countDownSection_toNat]
      omega
  | broadcasts t hPhase hStep =>
      rw [hStep]
      exact Nat.le_refl s.count.toNat
  | goes t p hFrom hTo hWaits hPasses hNext =>
      rw [hNext]
      exact Nat.le_refl s.count.toNat

/-
  In every state reached the count is what is left of `n`,
  no step raises it, a wait is over only after `n`
  count-downs, at most one broadcast was made, and a thread
  blocked at zero has a broadcast coming.
-/
theorem gate
    (n : UInt64)
    (s : KCountdownLatch Thread)
    (hReach : (countdownLatch Thread n).Reachable s) :
    s.count.toNat = n.toNat - s.completed ∧
      (∀ l s',
        (countdownLatch Thread n).step s l = some s' →
          s'.count.toNat ≤ s.count.toNat) ∧
      (∀ t, s.phase t = .passed → n.toNat ≤ s.completed) ∧
      s.broadcasts ≤ 1 ∧
      ¬ (s.count.toNat = 0 ∧
          (∃ t, s.phase t = .waiting) ∧
          ∀ t, s.phase t ≠ .signaling) := by
  have hGate : s.Gate n.toNat := by
    apply TransitionSystem.Reachable.invariant _ _ hReach
    · intro s hInit
      exact gate_of_new hInit
    · intro s l s' hGate hStep
      rcases step_inv hStep with ⟨hEnabled, hNext⟩
      rw [hNext]
      exact hGate.next hEnabled
  have hCount := hGate.count
  refine ⟨hCount, ?_, ?_, ?_, ?_⟩
  · intro l s' hStep
    rcases step_inv hStep with ⟨hEnabled, hNext⟩
    rw [hNext]
    exact count_next_le hEnabled
  · intro t hPhase
    cases hGate.stage with
    | closed _ _ hPassed _ => exact absurd hPhase (hPassed t)
    | opening _ hCompleted _ _ => exact hCompleted
    | opened hCompleted _ _ _ => exact hCompleted
  · cases hGate.stage with
    | closed _ _ _ hBroadcasts
    | opening _ _ _ hBroadcasts
    | opened _ _ _ hBroadcasts => omega
  · intro hStuck
    rcases hStuck with ⟨hZero, ⟨t, hWaits⟩, hNone⟩
    cases hGate.stage with
    | closed hCompleted _ _ _ => omega
    | opening v _ hSignaling _ =>
        exact hNone v ((hSignaling v).mpr rfl)
    | opened _ _ hWaiting _ => exact hWaiting t hWaits

/-
  Two threads wait and a third counts down twice: the second
  time broadcasts.
-/
theorem gate_opened :
    ∃ s : KCountdownLatch Nat,
      (countdownLatch Nat 2).Reachable s ∧
        s.phase 0 = .passed ∧
        s.phase 1 = .awake ∧
        s.count.toNat = 2 - s.completed ∧
        s.completed = 2 ∧
        s.broadcasts ≤ 1 := by
  have hExec :
      (countdownLatch Nat 2).exec
        { count := 2
          phase := fun _ => .outside
          completed := 0
          broadcasts := 0 }
        [.wait 0, .wait 1, .countDown 2, .countDownReturn 2,
          .spurious 0, .recheck 0, .countDown 2, .notifyAll 2,
          .recheck 0] = some _ := rfl
  have hReach := TransitionSystem.reachable_of_exec rfl hExec
  have hGate := gate 2 _ hReach
  exact
    ⟨_, hReach, rfl, rfl, hGate.1, rfl, hGate.2.2.2.1⟩

end KCountdownLatch

end KDoth
