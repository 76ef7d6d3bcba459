import KDoth.Foundations.TransitionSystem
import Mathlib.Data.Fintype.Basic
import Mathlib.Logic.Function.Basic

/-
  The condition variable of `kcondition_variable.c` and the
  threads that use one for the data it guards. Every call on
  it and every access to the data is a step of its own.

  What a thread calls has a name. It is either an update in a
  critical section, after which the thread may notify others,
  or a wait until a predicate on the data is false. The calls
  to the system succeed: the code gives them nothing on which
  they may fail.

  Key definitions include:
    * `SystemObjects`
    * `KConditionVariable.new`
    * `SectionCall`
    * `SectionPhase`
    * `KConditionVariable`
    * `SectionStep`
    * `KConditionVariable.step`
    * `conditionVariable`
    * `KConditionVariable.Moves`

  Key theorems include:
    * `KConditionVariable.new_deInit`
    * `KConditionVariable.step_inv`
-/

------------------------------------------------------------
-- Creation
------------------------------------------------------------

namespace KDoth

/- What the system keeps for condition variables. -/
structure SystemObjects where
  mutexes : Nat
  conditions : Nat
deriving DecidableEq, Repr

namespace KConditionVariable

/-
  `KConditionVariableNew`, by whether the object is granted
  and what `pthread_mutex_init` and `pthread_cond_init`
  answer: the member `is_valid`, or NULL.
-/
def new
    (granted mutexInit condInit : Bool)
    (objects : SystemObjects) :
    Option Bool × SystemObjects :=
  if !granted then (none, objects)
  else if !mutexInit then (none, objects)
  else
    let locked :=
      { objects with mutexes := objects.mutexes + 1 }
    if !condInit then
      (none, { locked with mutexes := locked.mutexes - 1 })
    else
      (some true,
        { locked with conditions := locked.conditions + 1 })

/- `KConditionVariableDeInit` -/
def deInit
    (isValid : Bool)
    (objects : SystemObjects) : SystemObjects :=
  if isValid then
    { mutexes := objects.mutexes - 1
      conditions := objects.conditions - 1 }
  else objects

/-
  The system is left with nothing by a failure, nor by a
  condition variable that is gone.
-/
theorem new_deInit
    (granted mutexInit condInit : Bool)
    (objects : SystemObjects) :
    match new granted mutexInit condInit objects with
    | (none, after) => after = objects
    | (some isValid, after) =>
        isValid = true ∧ deInit isValid after = objects := by
  cases granted <;> cases mutexInit <;> cases condInit <;>
    simp [new, deInit]

end KConditionVariable

end KDoth

------------------------------------------------------------
-- Calls
------------------------------------------------------------

namespace KDoth

/- `KConditionVariableNotifyOne` or `NotifyAll`, or neither. -/
inductive Notification where
  | none
  | one
  | all
deriving DecidableEq, Repr

/-
  What a thread calls. The section of an update computes the
  new data and a value, by which the thread notifies.
-/
inductive SectionCall (Data Value : Type) where
  | update
      (body : Data → Data × Value)
      (notify : Value → Notification)
  | await (predicate : Data → Bool)

/- Where a thread is in a call. -/
inductive SectionPhase (Data Value Name : Type) where
  /- In no call. -/
  | outside
  /- About to enter the critical section. -/
  | entering (c : Name)
  /- With the mutex, before the data is read. -/
  | entered (c : Name)
  /- With the mutex, after the data was read. -/
  | loaded (c : Name) (data : Data)
  /- With the mutex, after the data was written. -/
  | stored (c : Name) (value : Value)
  /- Out of the critical section, about to notify. -/
  | exited (c : Name) (value : Value)
  /- Has notified, or has nothing to notify. -/
  | notified (c : Name) (value : Value)
  /- With the mutex, after a predicate that was true. -/
  | tested (c : Name) (again : Bool)
  /- Blocked on the condition variable. -/
  | blocked (c : Name)
  /- Woken, without the mutex. -/
  | awake (c : Name)
  /- Woken, with the mutex. -/
  | reentered (c : Name)
  /- With the mutex, after a predicate that was false. -/
  | satisfied (c : Name)
  /- Out of the critical section of a wait. -/
  | left (c : Name)
deriving DecidableEq

/- The mutex, the data it guards and the threads. -/
structure KConditionVariable
    (Thread Data Value Name : Type) where
  owner : Option Thread
  data : Data
  phase : Thread → SectionPhase Data Value Name

namespace SectionPhase

variable {Data Value Name : Type}

/- The thread has the mutex. -/
def locks : SectionPhase Data Value Name → Bool
| .entered _ => true
| .loaded _ _ => true
| .stored _ _ => true
| .tested _ _ => true
| .reentered _ => true
| .satisfied _ => true
| _ => false

/- The thread is blocked. -/
def waits : SectionPhase Data Value Name → Bool
| .blocked _ => true
| _ => false

/- A thread that is blocked is woken. -/
def wake :
    SectionPhase Data Value Name →
      SectionPhase Data Value Name
| .blocked c => .awake c
| phase => phase

end SectionPhase

end KDoth

------------------------------------------------------------
-- Steps
------------------------------------------------------------

namespace KDoth

/- The steps of a thread, with the threads it wakes. -/
inductive SectionStep (Thread Name : Type) where
  | call (t : Thread) (c : Name)
  | enter (t : Thread)
  | access (t : Thread)
  | block (t : Thread)
  | spurious (t : Thread)
  | exit (t : Thread)
  | notify (t : Thread) (woken : Thread → Bool)
  | finish (t : Thread)

namespace KConditionVariable

variable {Thread Data Value Name : Type}
variable [DecidableEq Thread]

/- One thread goes on. -/
def setPhase
    (s : KConditionVariable Thread Data Value Name)
    (t : Thread)
    (phase : SectionPhase Data Value Name) :
    KConditionVariable Thread Data Value Name :=
  { s with phase := Function.update s.phase t phase }

def setOwner
    (s : KConditionVariable Thread Data Value Name)
    (owner : Option Thread) :
    KConditionVariable Thread Data Value Name :=
  { s with owner := owner }

/- Threads that were blocked are woken. -/
def wakeThreads
    (s : KConditionVariable Thread Data Value Name)
    (woken : Thread → Bool) :
    KConditionVariable Thread Data Value Name :=
  { s with
    phase := fun u =>
      if woken u then (s.phase u).wake else s.phase u }

/-
  Whom a notification may wake. `pthread_cond_signal` wakes
  at least one thread if there is one, and
  `pthread_cond_broadcast` wakes all of them.
-/
def Wakes
    (waits woken : Thread → Bool) : Notification → Prop
| .none => False
| .one =>
    (∀ u, woken u = true → waits u = true) ∧
      ((∃ u, waits u = true) → ∃ u, woken u = true)
| .all => ∀ u, woken u = waits u

instance
    [Fintype Thread]
    (waits woken : Thread → Bool)
    (n : Notification) :
    Decidable (Wakes waits woken n) := by
  cases n <;> unfold Wakes <;> infer_instance

/- The threads that are blocked. -/
def waiting
    (s : KConditionVariable Thread Data Value Name)
    (u : Thread) : Bool :=
  (s.phase u).waits

variable (program : Name → SectionCall Data Value)

/- An access to the data by the thread that has the mutex. -/
def access
    (s : KConditionVariable Thread Data Value Name)
    (t : Thread) :
    Option (KConditionVariable Thread Data Value Name) :=
  match s.phase t with
  | .entered c =>
      match program c with
      | .update _ _ => some (s.setPhase t (.loaded c s.data))
      | .await predicate =>
          if predicate s.data then
            some (s.setPhase t (.tested c false))
          else some (s.setPhase t (.satisfied c))
  | .loaded c data =>
      match program c with
      | .update body _ =>
          some
            { s.setPhase t (.stored c (body data).2) with
              data := (body data).1 }
      | .await _ => none
  | .reentered c =>
      match program c with
      | .update _ _ => none
      | .await predicate =>
          if predicate s.data then
            some (s.setPhase t (.tested c true))
          else some (s.setPhase t (.satisfied c))
  | _ => none

/- The notification that a call makes for a value. -/
def notification (c : Name) (value : Value) : Notification :=
  match program c with
  | .update _ notify => notify value
  | .await _ => .none

/- The state after a step, if the step is possible. -/
def step
    [Fintype Thread]
    (s : KConditionVariable Thread Data Value Name) :
    SectionStep Thread Name →
      Option (KConditionVariable Thread Data Value Name)
| .call t c =>
    match s.phase t with
    | .outside => some (s.setPhase t (.entering c))
    | _ => none
| .enter t =>
    match s.owner, s.phase t with
    | none, .entering c =>
        some ((s.setPhase t (.entered c)).setOwner (some t))
    | none, .awake c =>
        some ((s.setPhase t (.reentered c)).setOwner (some t))
    | _, _ => none
| .access t => access program s t
| .block t =>
    match s.phase t with
    | .tested c _ =>
        some ((s.setPhase t (.blocked c)).setOwner none)
    | _ => none
| .spurious t =>
    match s.phase t with
    | .blocked c => some (s.setPhase t (.awake c))
    | _ => none
| .exit t =>
    match s.phase t with
    | .stored c value =>
        some ((s.setPhase t (.exited c value)).setOwner none)
    | .satisfied c =>
        some ((s.setPhase t (.left c)).setOwner none)
    | _ => none
| .notify t woken =>
    match s.phase t with
    | .exited c value =>
        if
          Wakes s.waiting woken
            (notification program c value)
        then
          some
            ((s.wakeThreads woken).setPhase t
              (.notified c value))
        else none
    | _ => none
| .finish t =>
    match s.phase t with
    | .exited c value =>
        match notification program c value with
        | .none => some (s.setPhase t .outside)
        | _ => none
    | .notified _ _ => some (s.setPhase t .outside)
    | .left _ => some (s.setPhase t .outside)
    | _ => none

/- What is seen from outside: the calls that return. -/
def returned
    (s : KConditionVariable Thread Data Value Name) :
    SectionStep Thread Name →
      Option (Thread × Name × Option Value)
| .finish t =>
    match s.phase t with
    | .exited c value => some (t, c, some value)
    | .notified c value => some (t, c, some value)
    | .left c => some (t, c, none)
    | _ => none
| _ => none

/- No thread is in a call. -/
def idle (data : Data) :
    KConditionVariable Thread Data Value Name where
  owner := none
  data := data
  phase := fun _ => .outside

end KConditionVariable

/- Threads that use a condition variable for their data. -/
def conditionVariable
    {Data Value Name : Type}
    (Thread : Type)
    [Fintype Thread]
    [DecidableEq Thread]
    (program : Name → SectionCall Data Value)
    (initial : Data) :
    TransitionSystem
      (KConditionVariable Thread Data Value Name)
      (SectionStep Thread Name) where
  Init s := s = .idle initial
  step := KConditionVariable.step program

end KDoth

------------------------------------------------------------
-- What a Step Does
------------------------------------------------------------

namespace KDoth

namespace KConditionVariable

variable {Thread Data Value Name : Type}
variable [DecidableEq Thread]

/- Before a test of the predicate, for the first time or not. -/
def TestsFrom
    (phase : SectionPhase Data Value Name)
    (c : Name)
    (again : Bool) : Prop :=
  if again then phase = .reentered c else phase = .entered c

/- After a call that has nothing left to do. -/
inductive EndsFrom
    (program : Name → SectionCall Data Value) :
    SectionPhase Data Value Name → Prop
| silent (c : Name) (value : Value)
    (hNone : notification program c value = .none) :
    EndsFrom program (.exited c value)
| notified (c : Name) (value : Value) :
    EndsFrom program (.notified c value)
| left (c : Name) :
    EndsFrom program (.left c)

/- The steps with their guards and what they change. -/
inductive Moves
    (program : Name → SectionCall Data Value)
    (s : KConditionVariable Thread Data Value Name) :
    SectionStep Thread Name →
      KConditionVariable Thread Data Value Name → Prop
| calls (t : Thread) (c : Name)
    (hPhase : s.phase t = .outside) :
    Moves program s (.call t c) (s.setPhase t (.entering c))
| enters (t : Thread) (c : Name)
    (hOwner : s.owner = none)
    (hPhase : s.phase t = .entering c) :
    Moves program s (.enter t)
      ((s.setPhase t (.entered c)).setOwner (some t))
| reenters (t : Thread) (c : Name)
    (hOwner : s.owner = none)
    (hPhase : s.phase t = .awake c) :
    Moves program s (.enter t)
      ((s.setPhase t (.reentered c)).setOwner (some t))
| loads (t : Thread) (c : Name)
    (body : Data → Data × Value)
    (notify : Value → Notification)
    (hPhase : s.phase t = .entered c)
    (hCall : program c = .update body notify) :
    Moves program s (.access t)
      (s.setPhase t (.loaded c s.data))
| stores (t : Thread) (c : Name) (data : Data)
    (body : Data → Data × Value)
    (notify : Value → Notification)
    (hPhase : s.phase t = .loaded c data)
    (hCall : program c = .update body notify) :
    Moves program s (.access t)
      { s.setPhase t (.stored c (body data).2) with
        data := (body data).1 }
| finds (t : Thread) (c : Name) (again : Bool)
    (predicate : Data → Bool)
    (hPhase : TestsFrom (s.phase t) c again)
    (hCall : program c = .await predicate)
    (hTrue : predicate s.data = true) :
    Moves program s (.access t)
      (s.setPhase t (.tested c again))
| passes (t : Thread) (c : Name) (again : Bool)
    (predicate : Data → Bool)
    (hPhase : TestsFrom (s.phase t) c again)
    (hCall : program c = .await predicate)
    (hFalse : predicate s.data = false) :
    Moves program s (.access t)
      (s.setPhase t (.satisfied c))
| blocks (t : Thread) (c : Name) (again : Bool)
    (hPhase : s.phase t = .tested c again) :
    Moves program s (.block t)
      ((s.setPhase t (.blocked c)).setOwner none)
| wakes (t : Thread) (c : Name)
    (hPhase : s.phase t = .blocked c) :
    Moves program s (.spurious t) (s.setPhase t (.awake c))
| exits (t : Thread) (c : Name) (value : Value)
    (hPhase : s.phase t = .stored c value) :
    Moves program s (.exit t)
      ((s.setPhase t (.exited c value)).setOwner none)
| leaves (t : Thread) (c : Name)
    (hPhase : s.phase t = .satisfied c) :
    Moves program s (.exit t)
      ((s.setPhase t (.left c)).setOwner none)
| notifies (t : Thread) (c : Name) (value : Value)
    (woken : Thread → Bool)
    (hPhase : s.phase t = .exited c value)
    (hWakes :
      Wakes s.waiting woken (notification program c value)) :
    Moves program s (.notify t woken)
      ((s.wakeThreads woken).setPhase t (.notified c value))
| finishes (t : Thread)
    (hPhase : EndsFrom program (s.phase t)) :
    Moves program s (.finish t) (s.setPhase t .outside)

variable [Fintype Thread]
variable {program : Name → SectionCall Data Value}
variable {s s' : KConditionVariable Thread Data Value Name}
variable {l : SectionStep Thread Name}

omit [Fintype Thread] in
theorem access_inv
    {t : Thread}
    (hAccess : access program s t = some s') :
    Moves program s (.access t) s' := by
  unfold access at hAccess
  split at hAccess
  · rename_i c hPhase
    split at hAccess
    · rename_i body notify hCall
      cases hAccess
      exact .loads t c body notify hPhase hCall
    · rename_i predicate hCall
      split at hAccess
      · rename_i hTrue
        cases hAccess
        exact .finds t c false predicate hPhase hCall hTrue
      · rename_i hFalse
        cases hAccess
        exact
          .passes t c false predicate hPhase hCall
            (by simpa using hFalse)
  · rename_i c data hPhase
    split at hAccess
    · rename_i body notify hCall
      cases hAccess
      exact .stores t c data body notify hPhase hCall
    · cases hAccess
  · rename_i c hPhase
    split at hAccess
    · cases hAccess
    · rename_i predicate hCall
      split at hAccess
      · rename_i hTrue
        cases hAccess
        exact .finds t c true predicate hPhase hCall hTrue
      · rename_i hFalse
        cases hAccess
        exact
          .passes t c true predicate hPhase hCall
            (by simpa using hFalse)
  · cases hAccess

/- A step that is possible is one of these. -/
theorem step_inv
    (hStep : step program s l = some s') :
    Moves program s l s' := by
  cases l with
  | call t c =>
      simp only [step] at hStep
      split at hStep
      · rename_i hPhase
        cases hStep
        exact .calls t c hPhase
      · cases hStep
  | enter t =>
      simp only [step] at hStep
      split at hStep
      · rename_i c hOwner hPhase
        cases hStep
        exact .enters t c hOwner hPhase
      · rename_i c hOwner hPhase
        cases hStep
        exact .reenters t c hOwner hPhase
      · cases hStep
  | access t => exact access_inv hStep
  | block t =>
      simp only [step] at hStep
      split at hStep
      · rename_i c again hPhase
        cases hStep
        exact .blocks t c again hPhase
      · cases hStep
  | spurious t =>
      simp only [step] at hStep
      split at hStep
      · rename_i c hPhase
        cases hStep
        exact .wakes t c hPhase
      · cases hStep
  | exit t =>
      simp only [step] at hStep
      split at hStep
      · rename_i c value hPhase
        cases hStep
        exact .exits t c value hPhase
      · rename_i c hPhase
        cases hStep
        exact .leaves t c hPhase
      · cases hStep
  | notify t woken =>
      simp only [step] at hStep
      split at hStep
      · rename_i c value hPhase
        split at hStep
        · rename_i hWakes
          cases hStep
          exact .notifies t c value woken hPhase hWakes
        · cases hStep
      · cases hStep
  | finish t =>
      simp only [step] at hStep
      split at hStep
      · rename_i c value hPhase
        split at hStep
        · rename_i hNone
          cases hStep
          refine .finishes t ?_
          rw [hPhase]
          exact .silent c value hNone
        · cases hStep
      · rename_i c value hPhase
        cases hStep
        refine .finishes t ?_
        rw [hPhase]
        exact .notified c value
      · rename_i c hPhase
        cases hStep
        refine .finishes t ?_
        rw [hPhase]
        exact .left c
      · cases hStep

end KConditionVariable

end KDoth
