import KDoth.Threads.KCountdownLatch

/-
  The results of `KCountDownLatchCountDown` over whole runs
  of a countdown latch. Each call is kept with the thread
  that made it, with whether its critical section took a unit
  of the count, and with what it returned.

  Key definitions include:
    * `LatchCall`
    * `LatchHistory`
    * `latchHistory`
    * `LatchHistory.TellsTruth`
    * `LatchHistory.Kept`

  Key theorems include:
    * `LatchHistory.Kept.step`
    * `LatchHistory.Kept.leads_allReturned`
    * `LatchHistory.tellsTruth_iff`
-/

------------------------------------------------------------
-- Calls
------------------------------------------------------------

namespace KDoth

namespace KCountdownLatch

variable {Thread : Type}

/-
  What `KCountDownLatchCountDown` returns, with NULL as
  `none`.
-/
def countDownResult :
    Option (KCountdownLatch Thread) → Bool
| none => false
| some _ => true

end KCountdownLatch

namespace LatchStep

variable {Thread : Type}

/- The step begins a call of `KCountDownLatchCountDown`. -/
def isCountDown : LatchStep Thread → Bool
| .countDown _ => true
| _ => false

end LatchStep

/-
  A call of `KCountDownLatchCountDown` whose critical section
  is over. `returned` is empty until the call returns.
-/
structure LatchCall (Thread : Type) where
  thread : Thread
  decremented : Bool
  returned : Option Bool
deriving DecidableEq

namespace LatchCall

variable {Thread : Type}

def isOpen (call : LatchCall Thread) : Bool :=
  call.returned.isNone

variable [DecidableEq Thread]

/- The call that a thread is in returns. -/
def close
    (t : Thread)
    (result : Bool)
    (call : LatchCall Thread) :
    LatchCall Thread :=
  if call.thread = t ∧ call.returned = none then
    { call with returned := some result }
  else
    call

end LatchCall

/- A latch with all the calls that counted down, in order. -/
structure LatchHistory (Thread : Type) where
  latch : KCountdownLatch Thread
  calls : List (LatchCall Thread)

namespace LatchHistory

variable {Thread : Type}

/- Every call has returned. -/
def AllReturned (s : LatchHistory Thread) : Prop :=
  ∀ call ∈ s.calls, call.isOpen = false

/-
  On a latch that was created with `n`, as many calls return
  true as there were units to take, and they are the ones
  that took a unit.
-/
def TellsTruth
    (n : Nat)
    (s : LatchHistory Thread) : Prop :=
  s.calls.countP (fun call => call.returned == some true) =
      min n s.calls.length ∧
    ∀ call ∈ s.calls, call.returned = some call.decremented

instance
    (s : LatchHistory Thread) :
    Decidable s.AllReturned := by
  unfold AllReturned
  infer_instance

instance
    (n : Nat)
    (s : LatchHistory Thread) :
    Decidable (s.TellsTruth n) := by
  unfold TellsTruth
  infer_instance

variable [DecidableEq Thread]

/- The calls after a step of the latch. -/
def record
    (s : LatchHistory Thread) :
    LatchStep Thread → List (LatchCall Thread)
| .countDown t =>
    let count := s.latch.count
    s.calls ++
      [{ thread := t
         decremented :=
          (KCountdownLatch.countDownSection count).1 != count
         returned := none }]
| .countDownReturn t =>
    s.calls.map
      (LatchCall.close t
        (KCountdownLatch.countDownResult (some s.latch)))
| _ => s.calls

end LatchHistory

/- The steps of a latch, with its calls kept. -/
def latchHistory
    (Thread : Type)
    [DecidableEq Thread]
    (n : UInt64) :
    TransitionSystem (LatchHistory Thread)
      (LatchStep Thread) where
  Init s :=
    KCountdownLatch.new n = some s.latch ∧ s.calls = []
  step s l :=
    ((countdownLatch Thread n).step s.latch l).map
      (fun latch => { latch := latch, calls := s.record l })

end KDoth

------------------------------------------------------------
-- Threads on Their Way Out
------------------------------------------------------------

namespace KDoth

namespace KCountdownLatch

variable {Thread : Type}

/- The thread has to leave `KCountDownLatchCountDown`. -/
def Leaving
    (s : KCountdownLatch Thread)
    (t : Thread) : Prop :=
  s.phase t = .signaling ∨ s.phase t = .counted

variable [DecidableEq Thread]
variable {s : KCountdownLatch Thread}
variable {l : LatchStep Thread} {t u : Thread}
variable {p : LatchPhase}

/- A thread on its way out is in no other phase. -/
omit [DecidableEq Thread] in
theorem Leaving.ne
    (hLeaving : s.Leaving u)
    (hPhase : s.phase t = p)
    (hNot : p ≠ .signaling ∧ p ≠ .counted) :
    u ≠ t := by
  intro hSame
  rw [← hPhase, ← hSame] at hNot
  rcases hLeaving with hSignaling | hCounted
  · exact hNot.1 hSignaling
  · exact hNot.2 hCounted

/- The move of another thread does not concern it. -/
theorem Leaving.setPhase
    (hLeaving : s.Leaving u)
    (hNe : u ≠ t) :
    (s.setPhase t p).Leaving u := by
  unfold Leaving
  rw [setPhase_of_ne hNe]
  exact hLeaving

/- It does not wait for a broadcast. -/
omit [DecidableEq Thread] in
theorem Leaving.wakeAll
    (hLeaving : s.Leaving u) :
    s.wakeAll.Leaving u := by
  rcases hLeaving with hSignaling | hCounted
  · left
    simp [KCountdownLatch.wakeAll, hSignaling]
  · right
    simp [KCountdownLatch.wakeAll, hCounted]

/- A critical section takes a unit if there is one left. -/
omit [DecidableEq Thread] in
theorem countDownSection_ne
    (count : UInt64) :
    ((countDownSection count).1 != count) =
      decide (0 < count.toNat) := by
  have hSection := countDownSection_toNat count
  by_cases hPos : 0 < count.toNat
  · have hNe : (countDownSection count).1 ≠ count := by
      intro hSame
      rw [hSame] at hSection
      omega
    rw [decide_eq_true hPos]
    exact bne_iff_ne.mpr hNe
  · have hSame : (countDownSection count).1 = count := by
      apply UInt64.toNat.inj
      omega
    rw [hSame, decide_eq_false hPos]
    exact bne_self_eq_false count

/- After its critical section a thread is on its way out. -/
theorem leaving_countDown :
    (s.next (.countDown t)).Leaving t := by
  by_cases hLast : (countDownSection s.count).2 = true
  · left
    rw [phase_countDown (if_pos hLast), setPhase_self]
  · right
    rw [phase_countDown (if_neg hLast), setPhase_self]

/- A thread is on its way out until its call returns. -/
theorem Leaving.next
    (hLeaving : s.Leaving u)
    (hEnabled : s.Enabled l)
    (hStays : l ≠ .countDownReturn u) :
    (s.next l).Leaving u := by
  cases l with
  | countDown t =>
      exact
        hLeaving.setPhase
          (hLeaving.ne hEnabled ⟨nofun, nofun⟩)
  | notifyAll t =>
      by_cases hSelf : u = t
      · right
        rw [hSelf]
        exact setPhase_self
      · exact hLeaving.wakeAll.setPhase hSelf
  | countDownReturn t =>
      apply hLeaving.setPhase
      intro hSame
      exact hStays (congrArg LatchStep.countDownReturn hSame.symm)
  | wait t
  | spurious t
  | recheck t
  | waitReturn t =>
      exact
        hLeaving.setPhase
          (hLeaving.ne hEnabled ⟨nofun, nofun⟩)

end KCountdownLatch

end KDoth

------------------------------------------------------------
-- What Is Kept
------------------------------------------------------------

namespace KDoth

namespace LatchCall

variable {Thread : Type} [DecidableEq Thread]
variable {call : LatchCall Thread} {t : Thread}
variable {result : Bool}

@[simp] theorem close_thread :
    (call.close t result).thread = call.thread := by
  unfold close
  split <;> rfl

@[simp] theorem close_decremented :
    (call.close t result).decremented = call.decremented := by
  unfold close
  split <;> rfl

/- A call returns the result, or stays as it was. -/
theorem close_returned
    (call : LatchCall Thread)
    (t : Thread)
    (result : Bool) :
    (call.close t result).returned = some result ∨
      (call.close t result).returned = call.returned := by
  unfold close
  split
  · left
    rfl
  · right
    rfl

/- What is open afterwards was open, and another thread's. -/
theorem close_open
    (hOpen : (call.close t result).returned = none) :
    call.thread ≠ t ∧ call.returned = none := by
  unfold close at hOpen
  split at hOpen
  · cases hOpen
  · rename_i hOther
    exact ⟨fun hSelf => hOther ⟨hSelf, hOpen⟩, hOpen⟩

end LatchCall

namespace LatchHistory

variable {Thread : Type} [DecidableEq Thread]

/-
  As many calls took a unit as there were units to take, a
  call that returned has returned true, and the thread of any
  other is on its way out.
-/
structure Kept
    (n : Nat)
    (s : LatchHistory Thread) : Prop where
  gate : s.latch.Gate n
  completed : s.latch.completed = s.calls.length
  decremented :
    s.calls.countP LatchCall.decremented =
      min n s.calls.length
  returned :
    ∀ call ∈ s.calls,
      call.returned = none ∨ call.returned = some true
  leaving :
    ∀ call ∈ s.calls,
      call.returned = none → s.latch.Leaving call.thread

variable {n : Nat} {s s' : LatchHistory Thread}
variable {l : LatchStep Thread}

theorem step_inv
    {n : UInt64}
    (hStep : (latchHistory Thread n).step s l = some s') :
    s.latch.Enabled l ∧
      s' = { latch := s.latch.next l, calls := s.record l } := by
  rcases Option.map_eq_some_iff.mp hStep with
    ⟨latch, hLatch, hNext⟩
  rcases KCountdownLatch.step_inv hLatch with
    ⟨hEnabled, hEq⟩
  rw [hEq] at hNext
  exact ⟨hEnabled, hNext.symm⟩

theorem step_of_enabled
    {n : UInt64}
    (hEnabled : s.latch.Enabled l) :
    (latchHistory Thread n).step s l =
      some { latch := s.latch.next l, calls := s.record l } := by
  simp [latchHistory, countdownLatch, hEnabled]

/- A call is added as its critical section is completed. -/
theorem length_record :
    (s.record l).length =
      s.calls.length + l.isCountDown.toNat := by
  cases l with
  | countDown t =>
      simp [record, LatchStep.isCountDown]
  | countDownReturn t =>
      simp [record, LatchStep.isCountDown]
  | notifyAll t
  | wait t
  | spurious t
  | recheck t
  | waitReturn t => rfl

theorem completed_next :
    (s.latch.next l).completed =
      s.latch.completed + l.isCountDown.toNat := by
  cases l <;> rfl

theorem kept_of_init
    {n : UInt64}
    (hInit : (latchHistory Thread n).Init s) :
    s.Kept n.toNat := by
  rcases hInit with ⟨hNew, hNone⟩
  have hCompleted := (KCountdownLatch.new_inv hNew).2.2.1
  refine
    ⟨KCountdownLatch.gate_of_new hNew, ?_, ?_, ?_, ?_⟩
  · rw [hCompleted, hNone]
    rfl
  · rw [hNone]
    exact (Nat.min_zero _).symm
  · rw [hNone]
    nofun
  · rw [hNone]
    nofun

/- A call that begins takes a unit if there is one left. -/
theorem Kept.countP_record
    (hKept : s.Kept n) :
    (s.record l).countP LatchCall.decremented =
      min n (s.record l).length := by
  have hBefore := hKept.decremented
  cases l with
  | countDown t =>
      have hCount := hKept.gate.count
      have hCompleted := hKept.completed
      rw [length_record]
      simp only [record, LatchStep.isCountDown,
        List.countP_append, List.countP_singleton,
        KCountdownLatch.countDownSection_ne,
        decide_eq_true_eq, Bool.toNat_true]
      split <;> omega
  | countDownReturn t =>
      have hSame :
          LatchCall.decremented ∘
              LatchCall.close t
                (KCountdownLatch.countDownResult
                  (some s.latch)) =
            LatchCall.decremented := by
        funext call
        exact LatchCall.close_decremented
      rw [length_record, record, List.countP_map, hSame]
      exact hBefore
  | notifyAll t
  | wait t
  | spurious t
  | recheck t
  | waitReturn t => exact hBefore

/- No call returns anything but true. -/
theorem Kept.returned_record
    {call : LatchCall Thread}
    (hKept : s.Kept n)
    (hCall : call ∈ s.record l) :
    call.returned = none ∨ call.returned = some true := by
  cases l with
  | countDown t =>
      rcases List.mem_append.mp hCall with hOld | hNew
      · exact hKept.returned call hOld
      · left
        rw [List.mem_singleton.mp hNew]
  | countDownReturn t =>
      rcases List.mem_map.mp hCall with ⟨old, hOld, hClose⟩
      rw [← hClose]
      rcases LatchCall.close_returned old t true with
        hResult | hSame
      · right
        exact hResult
      · rw [KCountdownLatch.countDownResult, hSame]
        exact hKept.returned old hOld
  | notifyAll t
  | wait t
  | spurious t
  | recheck t
  | waitReturn t => exact hKept.returned call hCall

/- A call that is open keeps its thread on its way out. -/
theorem Kept.leaving_record
    {call : LatchCall Thread}
    (hKept : s.Kept n)
    (hEnabled : s.latch.Enabled l)
    (hCall : call ∈ s.record l)
    (hOpen : call.returned = none) :
    (s.latch.next l).Leaving call.thread := by
  cases l with
  | countDown t =>
      rcases List.mem_append.mp hCall with hOld | hNew
      · exact
          (hKept.leaving call hOld hOpen).next hEnabled nofun
      · rw [List.mem_singleton.mp hNew]
        exact KCountdownLatch.leaving_countDown
  | countDownReturn t =>
      rcases List.mem_map.mp hCall with ⟨old, hOld, hClose⟩
      rw [← hClose] at hOpen ⊢
      rcases LatchCall.close_open hOpen with ⟨hNe, hBefore⟩
      rw [LatchCall.close_thread]
      apply (hKept.leaving old hOld hBefore).next hEnabled
      intro hSame
      exact hNe (LatchStep.countDownReturn.inj hSame).symm
  | notifyAll t
  | wait t
  | spurious t
  | recheck t
  | waitReturn t =>
      exact
        (hKept.leaving call hCall hOpen).next hEnabled nofun

/- Every step keeps the calls as they are described. -/
theorem Kept.step
    {size : UInt64}
    (hKept : s.Kept n)
    (hStep : (latchHistory Thread size).step s l = some s') :
    s'.Kept n := by
  rcases step_inv hStep with ⟨hEnabled, hNext⟩
  rw [hNext]
  refine ⟨hKept.gate.next hEnabled, ?_, ?_, ?_, ?_⟩
  · show (s.latch.next l).completed = (s.record l).length
    rw [completed_next, length_record, hKept.completed]
  · exact hKept.countP_record
  · intro call hCall
    exact hKept.returned_record hCall
  · intro call hCall hOpen
    exact hKept.leaving_record hEnabled hCall hOpen

/- The calls of a run are its critical sections. -/
theorem length_of_exec
    {size : UInt64}
    {ls : List (LatchStep Thread)}
    (hExec : (latchHistory Thread size).exec s ls = some s') :
    s'.calls.length =
      s.calls.length + ls.countP LatchStep.isCountDown := by
  induction ls generalizing s with
  | nil =>
      cases hExec
      rfl
  | cons l ls ih =>
      rcases TransitionSystem.exec_cons hExec with
        ⟨middle, hFirst, hRest⟩
      have hLength :
          middle.calls.length =
            s.calls.length + l.isCountDown.toNat := by
        rw [(step_inv hFirst).2]
        exact length_record
      rw [ih hRest, hLength, List.countP_cons]
      cases l.isCountDown with
      | false => simp
      | true =>
          simp
          omega

end LatchHistory

end KDoth

------------------------------------------------------------
-- Returns
------------------------------------------------------------

namespace KDoth

namespace LatchHistory

variable {Thread : Type} [DecidableEq Thread]
variable {n : Nat} {size : UInt64}
variable {s s' : LatchHistory Thread}
variable {call : LatchCall Thread} {t : Thread}

/- Fewer meet a condition that some item no longer meets. -/
theorem countP_lt_countP
    {Item : Type}
    {p q : Item → Bool}
    {items : List Item}
    {item : Item}
    (hImp : ∀ x ∈ items, p x = true → q x = true)
    (hItem : item ∈ items)
    (hNot : p item = false)
    (hMet : q item = true) :
    items.countP p < items.countP q := by
  rcases List.append_of_mem hItem with ⟨front, back, hItems⟩
  rw [hItems] at hImp ⊢
  have hFront : front.countP p ≤ front.countP q :=
    List.countP_mono_left fun x hx =>
      hImp x (List.mem_append_left _ hx)
  have hBack : back.countP p ≤ back.countP q :=
    List.countP_mono_left fun x hx =>
      hImp x
        (List.mem_append_right _ (List.mem_cons_of_mem _ hx))
  rw [List.countP_append, List.countP_append,
    List.countP_cons_of_neg (by simp [hNot]),
    List.countP_cons_of_pos hMet]
  omega

/- A call that returns is not open any more. -/
theorem countP_open_return
    (hCall : call ∈ s.calls)
    (hOpen : call.isOpen = true) :
    (s.record (.countDownReturn call.thread)).countP
        LatchCall.isOpen <
      s.calls.countP LatchCall.isOpen := by
  rw [record, List.countP_map]
  refine countP_lt_countP ?_ hCall ?_ hOpen
  · intro other _ hStill
    have hBefore :=
      (LatchCall.close_open (Option.isNone_iff_eq_none.mp hStill)).2
    exact Option.isNone_iff_eq_none.mpr hBefore
  · have hNone := Option.isNone_iff_eq_none.mp hOpen
    simp [LatchCall.close, LatchCall.isOpen, hNone]

/- A run has as many calls as before, and all is kept. -/
def KeptWith
    (n k : Nat)
    (s : LatchHistory Thread) : Prop :=
  s.Kept n ∧ s.calls.length = k

/- A thread whose section is over returns in one step. -/
theorem Kept.nears_of_counted
    (hKept : s.Kept n)
    (hCall : call ∈ s.calls)
    (hOpen : call.isOpen = true)
    (hCounted : s.latch.phase call.thread = .counted) :
    (latchHistory Thread size).Nears
      (KeptWith n s.calls.length)
      (fun s => s.calls.countP LatchCall.isOpen) s := by
  have hEnabled :
      s.latch.Enabled (.countDownReturn call.thread) :=
    hCounted
  have hStep :=
    step_of_enabled (n := size) hEnabled
  refine
    ⟨_, .single hStep, ⟨hKept.step hStep, ?_⟩,
      countP_open_return hCall hOpen⟩
  exact
    length_record (s := s)
      (l := .countDownReturn call.thread)

/- One that still has to broadcast does so first. -/
theorem Kept.nears_of_signaling
    (hKept : s.Kept n)
    (hCall : call ∈ s.calls)
    (hOpen : call.isOpen = true)
    (hSignaling : s.latch.phase call.thread = .signaling) :
    (latchHistory Thread size).Nears
      (KeptWith n s.calls.length)
      (fun s => s.calls.countP LatchCall.isOpen) s := by
  have hEnabled : s.latch.Enabled (.notifyAll call.thread) :=
    hSignaling
  have hStep :=
    step_of_enabled (n := size) hEnabled
  have hCounted :
      (s.latch.next (.notifyAll call.thread)).phase
          call.thread =
        .counted :=
    KCountdownLatch.setPhase_self
  rcases
      (hKept.step hStep).nears_of_counted hCall hOpen
        hCounted with
    ⟨s', hLeads, hLast, hLess⟩
  exact
    ⟨s', (TransitionSystem.Leads.single hStep).trans hLeads,
      hLast, hLess⟩

/- From every state the calls that are open can return. -/
theorem Kept.leads_allReturned
    (hKept : s.Kept n) :
    ∃ s',
      (latchHistory Thread size).Leads s s' ∧
        s'.calls.length = s.calls.length ∧
          s'.AllReturned := by
  have hProgress :
      ∀ r : LatchHistory Thread,
        KeptWith n s.calls.length r →
          r.AllReturned ∨
            (latchHistory Thread size).Nears
              (KeptWith n s.calls.length)
              (fun s => s.calls.countP LatchCall.isOpen)
              r := by
    rintro r ⟨hKept, hLength⟩
    by_cases hAll : r.AllReturned
    · exact Or.inl hAll
    · right
      rcases not_forall.mp hAll with ⟨call, hNot⟩
      rcases Classical.not_imp.mp hNot with ⟨hCall, hStill⟩
      have hOpen := eq_true_of_ne_false hStill
      have hNone := Option.isNone_iff_eq_none.mp hOpen
      rw [← hLength]
      rcases hKept.leaving call hCall hNone with
        hSignaling | hCounted
      · exact hKept.nears_of_signaling hCall hOpen hSignaling
      · exact hKept.nears_of_counted hCall hOpen hCounted
  rcases
      TransitionSystem.leads_of_progress _ hProgress
        ⟨hKept, rfl⟩ with
    ⟨s', hLeads, ⟨_, hLength⟩, hAll⟩
  exact ⟨s', hLeads, hLength, hAll⟩

end LatchHistory

end KDoth

------------------------------------------------------------
-- Results
------------------------------------------------------------

namespace KDoth

namespace LatchHistory

variable {Thread : Type} [DecidableEq Thread]
variable {n : Nat} {s : LatchHistory Thread}

/- Once all calls have returned, all of them returned true. -/
omit [DecidableEq Thread] in
theorem Kept.returned_of_allReturned
    {call : LatchCall Thread}
    (hKept : s.Kept n)
    (hAll : s.AllReturned)
    (hCall : call ∈ s.calls) :
    call.returned = some true := by
  rcases hKept.returned call hCall with hNone | hTrue
  · have hClosed := hAll call hCall
    rw [LatchCall.isOpen, hNone] at hClosed
    cases hClosed
  · exact hTrue

/-
  With the calls over, what they returned is what they did
  exactly if there was a unit for each of them.
-/
omit [DecidableEq Thread] in
theorem Kept.truth_iff
    (hKept : s.Kept n)
    (hAll : s.AllReturned) :
    s.TellsTruth n ↔ s.calls.length ≤ n := by
  have hReturned :
      s.calls.countP (fun call => call.returned == some true) =
        s.calls.length := by
    apply List.countP_eq_length.mpr
    intro call hCall
    rw [hKept.returned_of_allReturned hAll hCall]
    rfl
  constructor
  · intro hTruth
    have hCount := hTruth.1
    omega
  · intro hLe
    refine ⟨by omega, ?_⟩
    have hTook :
        s.calls.countP LatchCall.decremented =
          s.calls.length := by
      rw [hKept.decremented]
      exact Nat.min_eq_right hLe
    intro call hCall
    rw [hKept.returned_of_allReturned hAll hCall,
      List.countP_eq_length.mp hTook call hCall]

/-
  In a run of any length, by any threads in any order, every
  call that was begun can return, and once they all have, the
  results tell the truth exactly if there were no more calls
  than the count that the latch was created with.
-/
theorem tellsTruth_iff
    (n : UInt64)
    (start s : LatchHistory Thread)
    (ls : List (LatchStep Thread))
    (hInit : (latchHistory Thread n).Init start)
    (hExec : (latchHistory Thread n).exec start ls = some s) :
    (∃ s',
      (latchHistory Thread n).Leads s s' ∧
        s'.calls.length = s.calls.length ∧
          s'.AllReturned) ∧
      s.calls.length = ls.countP LatchStep.isCountDown ∧
      (s.AllReturned →
        (s.TellsTruth n.toNat ↔
          ls.countP LatchStep.isCountDown ≤ n.toNat)) := by
  have hKept : s.Kept n.toNat := by
    apply
      TransitionSystem.exec_invariant (Kept n.toNat) _
        (kept_of_init hInit) hExec
    intro s l s' hKept hStep
    exact hKept.step hStep
  have hLength := length_of_exec hExec
  rw [hInit.2, List.length_nil, Nat.zero_add] at hLength
  refine ⟨hKept.leads_allReturned, hLength, ?_⟩
  intro hAll
  rw [hKept.truth_iff hAll, hLength]

/- Two threads count down a latch of two once each. -/
theorem tellsTruth_of_two :
    ∃ start s : LatchHistory Nat,
      (latchHistory Nat 2).Init start ∧
        (latchHistory Nat 2).exec start
            [.countDown 0, .countDown 1, .countDownReturn 0,
              .notifyAll 1, .countDownReturn 1] =
          some s ∧
        s.TellsTruth 2 := by
  have hExec :
      (latchHistory Nat 2).exec
        { latch :=
            { count := 2
              phase := fun _ => .outside
              completed := 0
              broadcasts := 0 }
          calls := [] }
        [.countDown 0, .countDown 1, .countDownReturn 0,
          .notifyAll 1, .countDownReturn 1] = some _ := rfl
  have hTruth :=
    (tellsTruth_iff 2 _ _ _ ⟨rfl, rfl⟩ hExec).2.2 (by decide)
  exact ⟨_, _, ⟨rfl, rfl⟩, hExec, hTruth.mpr (by decide)⟩

/-
  A latch of one is counted down twice. Both calls return
  true, and the second took nothing.
-/
theorem tellsTruth_fails :
    ∃ start s : LatchHistory Nat,
      (latchHistory Nat 1).Init start ∧
        (latchHistory Nat 1).exec start
            [.countDown 0, .notifyAll 0, .countDownReturn 0,
              .countDown 0, .countDownReturn 0] =
          some s ∧
        s.AllReturned ∧ ¬ s.TellsTruth 1 := by
  have hExec :
      (latchHistory Nat 1).exec
        { latch :=
            { count := 1
              phase := fun _ => .outside
              completed := 0
              broadcasts := 0 }
          calls := [] }
        [.countDown 0, .notifyAll 0, .countDownReturn 0,
          .countDown 0, .countDownReturn 0] = some _ := rfl
  exact ⟨_, _, ⟨rfl, rfl⟩, hExec, by decide, by decide⟩

end LatchHistory

end KDoth
