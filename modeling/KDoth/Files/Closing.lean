import KDoth.Files.KFileHandle
import KDoth.Foundations.TransitionSystem

/-
  Closing a file handle, with what the system answers to
  `close`. The system takes the number of the file back even
  if it answers with an error, and other code may get it.

  Key definitions include:
    * `FileClosing`
    * `FileClosing.system`
    * `FileClosing.ClosedOnce`

  Key theorems include:
    * `FileClosing.History.step`
    * `FileClosing.closedOnce_iff`
-/

------------------------------------------------------------
-- Handles And Their Numbers
------------------------------------------------------------

namespace KDoth

/- What the number of the file refers to. -/
inductive NumberOwner where
  | handle
  | nobody
  | other
deriving DecidableEq, Repr

/- The answers 0, EINTR, EIO and EBADF. -/
inductive CloseAnswer where
  | success
  | interrupted
  | failed
  | notOpen
deriving DecidableEq, Repr

/- Where the calls on the handle are. -/
inductive ClosingPhase where
  | idle
  /- In `close`, called for the last release or not. -/
  | closing (deInit : Bool)
  /- The last reference was dropped. -/
  | gone
  | aborted
deriving DecidableEq, Repr

/-
  `late` is whether `close` was called after the number had
  been taken back, and `answers` are those of the system, with
  whether `KFileHandleDeInit` made the call.
-/
structure FileClosing where
  handle : KFileHandle
  owner : NumberOwner
  phase : ClosingPhase
  late : Bool
  answers : List (Bool × CloseAnswer)
deriving DecidableEq, Repr

inductive ClosingStep where
  /- The client calls `KFileHandleClose`. -/
  | close
  /- The client drops the last reference. -/
  | release
  | answer (a : CloseAnswer)
  /- Other code gets the number, or closes its file. -/
  | otherOpens
  | otherCloses
deriving DecidableEq, Repr

namespace FileClosing

/- The call of `close`. -/
def invoke
    (s : FileClosing)
    (deInit : Bool) : FileClosing :=
  { s with
    phase := .closing deInit
    late := s.late || s.owner ≠ .handle }

/- `KFileHandleClose` up to its call of `close`. -/
def close (s : FileClosing) : FileClosing :=
  if s.handle.closed then s
  else s.invoke false

/- `KFileHandleDeInit` up to its call of `close`. -/
def deInit (s : FileClosing) : FileClosing :=
  if s.handle.closed then { s with phase := .gone }
  else s.invoke true

/- The answers that the system may give. -/
def Answers (s : FileClosing) (a : CloseAnswer) : Prop :=
  a = .notOpen ↔ s.owner = .nobody

instance (s : FileClosing) (a : CloseAnswer) :
    Decidable (s.Answers a) := by
  unfold Answers
  infer_instance

/- An open number is taken back, whatever the answer is. -/
def answered
    (s : FileClosing)
    (deInit : Bool)
    (a : CloseAnswer) : FileClosing :=
  { s with
    owner := .nobody
    answers := s.answers ++ [(deInit, a)] }

/-
  `K_HANDLE_EINTR` calls `close` again. Otherwise the member
  `closed` is written, and the assertion of the last release
  is checked.
-/
def finish
    (s : FileClosing)
    (deInit : Bool)
    (a : CloseAnswer) : FileClosing :=
  if a = .interrupted then s.invoke deInit
  else
    { s with
      handle := { s.handle with closed := a = .success }
      phase :=
        if !deInit then .idle
        else if a = .success then .gone
        else .aborted }

def step (s : FileClosing) : ClosingStep → Option FileClosing
| .close => if s.phase = .idle then some s.close else none
| .release => if s.phase = .idle then some s.deInit else none
| .answer a =>
    match s.phase with
    | .closing deInit =>
        if s.Answers a then
          some ((s.answered deInit a).finish deInit a)
        else none
    | _ => none
| .otherOpens =>
    if s.owner = .nobody then
      some { s with owner := .other }
    else none
| .otherCloses =>
    if s.owner = .other then
      some { s with owner := .nobody }
    else none

/- A handle that was just opened. -/
def opened (number : Nat) : FileClosing where
  handle := { handle := number, closed := false }
  owner := .handle
  phase := .idle
  late := false
  answers := []

def system : TransitionSystem FileClosing ClosingStep where
  Init s := ∃ number, s = opened number
  step := step

end FileClosing

end KDoth

------------------------------------------------------------
-- Histories
------------------------------------------------------------

namespace KDoth

namespace FileClosing

variable {s s' : FileClosing} {l : ClosingStep}

/- The system answered 0, or refused the very last call. -/
def Clean (answers : List (Bool × CloseAnswer)) : Prop :=
  ∃ first rest,
    answers = first :: rest ∧
      (first.2 = .success ∨ first = (true, .failed))

/- No call of `close` was answered yet. -/
structure Untouched (s : FileClosing) : Prop where
  answers : s.answers = []
  owner : s.owner = .handle
  closed : s.handle.closed = false
  late : s.late = false
  phase : s.phase = .idle ∨ ∃ deInit, s.phase = .closing deInit

/- The first call was the last one. -/
structure Settled (s : FileClosing) : Prop where
  answers :
    ∃ answer, s.answers = [answer] ∧
      ((answer.2 = .success ∧ s.handle.closed = true ∧
          (s.phase = .idle ∨ s.phase = .gone)) ∨
        (answer = (true, .failed) ∧ s.phase = .aborted))
  owner : s.owner ≠ .handle
  late : s.late = false

/- The first answer was an error, and the handle goes on. -/
structure Spoiled (s : FileClosing) : Prop where
  answers : ¬ Clean s.answers
  touched : s.answers ≠ []
  owner : s.owner ≠ .handle
  again :
    s.late = true ∨
      (s.phase = .idle ∧ s.handle.closed = false)

inductive History (s : FileClosing) : Prop where
  | untouched (h : Untouched s)
  | settled (h : Settled s)
  | spoiled (h : Spoiled s)

/- A longer list of answers begins with the same one. -/
theorem clean_append
    {answers : List (Bool × CloseAnswer)}
    {a : Bool × CloseAnswer}
    (hSome : answers ≠ []) :
    Clean (answers ++ [a]) ↔ Clean answers := by
  cases answers with
  | nil => exact absurd rfl hSome
  | cons first rest => simp [Clean]

/- The first answer decides. -/
theorem Untouched.answer
    {deInit : Bool}
    {a : CloseAnswer}
    (hUntouched : Untouched s)
    (hAnswers : s.Answers a) :
    History ((s.answered deInit a).finish deInit a) := by
  have hList :
      (s.answered deInit a).answers = [(deInit, a)] := by
    rw [answered, hUntouched.answers]
    rfl
  cases a with
  | success =>
      apply History.settled
      refine ⟨⟨_, hList, .inl ⟨rfl, rfl, ?_⟩⟩, nofun,
        hUntouched.late⟩
      cases deInit with
      | false => exact .inl rfl
      | true => exact .inr rfl
  | interrupted =>
      apply History.spoiled
      refine ⟨?_, ?_, nofun, .inl ?_⟩
      · change ¬ Clean (s.answered deInit .interrupted).answers
        rw [hList]
        simp [Clean]
      · exact List.append_ne_nil_of_right_ne_nil _ nofun
      · exact Bool.or_true _
  | failed =>
      cases deInit with
      | false =>
          apply History.spoiled
          refine ⟨?_, ?_, nofun, .inr ⟨rfl, rfl⟩⟩
          · change ¬ Clean (s.answered false .failed).answers
            rw [hList]
            simp [Clean]
          · exact List.append_ne_nil_of_right_ne_nil _ nofun
      | true =>
          apply History.settled
          exact
            ⟨⟨_, hList, .inr ⟨rfl, rfl⟩⟩, nofun,
              hUntouched.late⟩
  | notOpen =>
      have hNobody := hAnswers.mp rfl
      rw [hUntouched.owner] at hNobody
      cases hNobody

/- Whatever is called next is too late. -/
theorem Spoiled.invoke
    (hSpoiled : Spoiled s)
    (deInit : Bool) :
    Spoiled (s.invoke deInit) := by
  refine
    ⟨hSpoiled.answers, hSpoiled.touched, hSpoiled.owner,
      .inl ?_⟩
  change (s.late || decide (s.owner ≠ .handle)) = true
  rw [decide_eq_true hSpoiled.owner, Bool.or_true]

theorem Spoiled.answer
    {deInit : Bool}
    {a : CloseAnswer}
    (hSpoiled : Spoiled s)
    (hPhase : s.phase = .closing deInit) :
    Spoiled ((s.answered deInit a).finish deInit a) := by
  have hLate : s.late = true := by
    rcases hSpoiled.again with hLate | ⟨hIdle, _⟩
    · exact hLate
    · rw [hPhase] at hIdle
      cases hIdle
  have hAnswered : Spoiled (s.answered deInit a) := by
    refine ⟨?_, ?_, nofun, .inl hLate⟩
    · change ¬ Clean (s.answers ++ [(deInit, a)])
      rw [clean_append hSpoiled.touched]
      exact hSpoiled.answers
    · exact List.append_ne_nil_of_right_ne_nil _ nofun
  unfold finish
  by_cases hAgain : a = .interrupted
  · rw [if_pos hAgain]
    exact hAnswered.invoke deInit
  · rw [if_neg hAgain]
    exact
      ⟨hAnswered.answers, hAnswered.touched, hAnswered.owner,
        .inl hLate⟩

/- A step that changes only who has the number. -/
theorem History.withOwner
    {owner : NumberOwner}
    (hHistory : History s)
    (hBefore : s.owner ≠ .handle)
    (hAfter : owner ≠ .handle) :
    History { s with owner := owner } := by
  cases hHistory with
  | untouched h => exact absurd h.owner hBefore
  | settled h => exact .settled ⟨h.answers, hAfter, h.late⟩
  | spoiled h =>
      exact .spoiled ⟨h.answers, h.touched, hAfter, h.again⟩

/- A call that goes as far as `close`. -/
theorem History.invoke
    (hHistory : History s)
    (hPhase : s.phase = .idle)
    (hClosed : s.handle.closed = false)
    (deInit : Bool) :
    History (s.invoke deInit) := by
  cases hHistory with
  | untouched h =>
      apply History.untouched
      refine
        ⟨h.answers, h.owner, h.closed, ?_, .inr ⟨deInit, rfl⟩⟩
      change (s.late || decide (s.owner ≠ .handle)) = false
      rw [h.late, h.owner]
      rfl
  | settled h =>
      rcases h.answers with
        ⟨_, _, ⟨_, hDone, _⟩ | ⟨_, hAborted⟩⟩
      · rw [hClosed] at hDone
        cases hDone
      · rw [hPhase] at hAborted
        cases hAborted
  | spoiled h => exact .spoiled (h.invoke deInit)

/- The last reference to a handle that was closed. -/
theorem History.gone
    (hHistory : History s)
    (hPhase : s.phase = .idle)
    (hClosed : s.handle.closed = true) :
    History { s with phase := .gone } := by
  cases hHistory with
  | untouched h =>
      have hOpen := h.closed
      rw [hClosed] at hOpen
      cases hOpen
  | settled h =>
      rcases h.answers with
        ⟨answer, hAnswer, ⟨hFirst, hDone, _⟩ | ⟨_, hAborted⟩⟩
      · exact
          .settled
            ⟨⟨answer, hAnswer, .inl ⟨hFirst, hDone, .inr rfl⟩⟩,
              h.owner, h.late⟩
      · rw [hPhase] at hAborted
        cases hAborted
  | spoiled h =>
      rcases h.again with hLate | ⟨_, hOpen⟩
      · exact
          .spoiled ⟨h.answers, h.touched, h.owner, .inl hLate⟩
      · rw [hClosed] at hOpen
        cases hOpen

/- Every step keeps the history in one of the three forms. -/
theorem History.step
    (hHistory : History s)
    (hStep : s.step l = some s') :
    History s' := by
  cases l with
  | close =>
      simp only [FileClosing.step, Option.ite_none_right_eq_some]
        at hStep
      rcases hStep with ⟨hPhase, hEq⟩
      cases hEq
      unfold close
      cases hClosed : s.handle.closed with
      | true => exact hHistory
      | false => exact hHistory.invoke hPhase hClosed false
  | release =>
      simp only [FileClosing.step, Option.ite_none_right_eq_some]
        at hStep
      rcases hStep with ⟨hPhase, hEq⟩
      cases hEq
      unfold deInit
      cases hClosed : s.handle.closed with
      | true => exact hHistory.gone hPhase hClosed
      | false => exact hHistory.invoke hPhase hClosed true
  | answer a =>
      simp only [FileClosing.step] at hStep
      cases hPhase : s.phase with
      | closing deInit =>
          simp only [hPhase, Option.ite_none_right_eq_some]
            at hStep
          rcases hStep with ⟨hAnswers, hEq⟩
          cases hEq
          cases hHistory with
          | untouched h => exact h.answer hAnswers
          | settled h =>
              rcases h.answers with
                ⟨_, _, ⟨_, _, hIdle | hGone⟩ | ⟨_, hAborted⟩⟩
              · rw [hPhase] at hIdle
                cases hIdle
              · rw [hPhase] at hGone
                cases hGone
              · rw [hPhase] at hAborted
                cases hAborted
          | spoiled h => exact .spoiled (h.answer hPhase)
      | idle =>
          rw [hPhase] at hStep
          cases hStep
      | gone =>
          rw [hPhase] at hStep
          cases hStep
      | aborted =>
          rw [hPhase] at hStep
          cases hStep
  | otherOpens =>
      simp only [FileClosing.step, Option.ite_none_right_eq_some]
        at hStep
      rcases hStep with ⟨hNobody, hEq⟩
      cases hEq
      apply hHistory.withOwner
      · rw [hNobody]
        nofun
      · nofun
  | otherCloses =>
      simp only [FileClosing.step, Option.ite_none_right_eq_some]
        at hStep
      rcases hStep with ⟨hOther, hEq⟩
      cases hEq
      apply hHistory.withOwner
      · rw [hOther]
        nofun
      · nofun

/- By induction on the steps. -/
theorem history_of_reachable
    (hReach : system.Reachable s) :
    History s := by
  apply hReach.invariant
  · rintro s ⟨number, rfl⟩
    exact .untouched ⟨rfl, rfl, rfl, rfl, .inl rfl⟩
  · intro s l s' hHistory hStep
    exact hHistory.step hStep

end FileClosing

end KDoth

------------------------------------------------------------
-- Closing Once
------------------------------------------------------------

namespace KDoth

namespace FileClosing

/-
  The number is closed at most once, and the last release does
  not abort because of an error before its own call.
-/
structure ClosedOnce (s : FileClosing) : Prop where
  once : s.late = false
  passes :
    s.phase = .aborted →
      ∀ earlier last,
        s.answers = earlier ++ [last] →
          ∀ answer ∈ earlier, answer.2 = .success

/-
  When the handle is gone, it was closed once exactly if the
  system answered the first call with 0, or with EIO in the
  call of the last release.
-/
theorem closedOnce_iff
    (s : FileClosing)
    (hReach : system.Reachable s)
    (hDone : s.phase = .gone ∨ s.phase = .aborted) :
    ClosedOnce s ↔ Clean s.answers := by
  cases history_of_reachable hReach with
  | untouched h =>
      rcases h.phase with hIdle | ⟨deInit, hClosing⟩
      · rw [hIdle] at hDone
        rcases hDone with hNot | hNot <;> cases hNot
      · rw [hClosing] at hDone
        rcases hDone with hNot | hNot <;> cases hNot
  | settled h =>
      rcases h.answers with ⟨answer, hAnswer, hFirst⟩
      apply iff_of_true
      · refine ⟨h.late, ?_⟩
        intro _ earlier last hEq a ha
        rw [hAnswer] at hEq
        have hLength := congrArg List.length hEq
        rw [List.length_append, List.length_singleton]
          at hLength
        have hNone : earlier = [] := by
          rw [← List.length_eq_zero_iff]
          simp only [List.length_singleton] at hLength
          omega
        rw [hNone] at ha
        cases ha
      · refine ⟨answer, [], hAnswer, ?_⟩
        rcases hFirst with ⟨hSuccess, _, _⟩ | ⟨hFailed, _⟩
        · exact .inl hSuccess
        · exact .inr hFailed
  | spoiled h =>
      apply iff_of_false
      · intro hOnce
        rcases h.again with hLate | ⟨hIdle, _⟩
        · rw [hOnce.once] at hLate
          cases hLate
        · rw [hIdle] at hDone
          rcases hDone with hNot | hNot <;> cases hNot
      · exact h.answers

/- A handle that is closed and then released. -/
theorem closedOnce_iff_success :
    ∃ s,
      system.exec (opened 3)
          [.close, .answer .success, .release] = some s ∧
        (ClosedOnce s ↔ Clean s.answers) := by
  have hExec :
      system.exec (opened 3)
          [.close, .answer .success, .release] = some _ :=
    rfl
  refine ⟨_, hExec, ?_⟩
  apply closedOnce_iff
  · exact TransitionSystem.reachable_of_exec ⟨3, rfl⟩ hExec
  · exact .inl rfl

/-
  An interrupted call is made again when other code has the
  number, and closes its file. A failed one is made again by
  the last release, which aborts.
-/
theorem closes_twice :
    (∃ s,
      system.exec (opened 3)
          [.release, .answer .interrupted, .otherOpens,
            .answer .success] = some s ∧
        ¬ ClosedOnce s) ∧
      ∃ s,
        system.exec (opened 3)
            [.close, .answer .failed, .release,
              .answer .notOpen] = some s ∧
          s.phase = .aborted ∧ ¬ ClosedOnce s := by
  refine ⟨⟨_, rfl, ?_⟩, _, rfl, rfl, ?_⟩
  · intro hOnce
    cases hOnce.once
  · intro hOnce
    cases hOnce.once

end FileClosing

end KDoth
