import KDoth.Foundations.Refinement
import KDoth.Threads.KConditionVariable

/-
  Critical sections of a condition variable are atomic: the
  threads cannot be told from threads that do each section,
  or each turn of a wait, in one step.

  Key definitions include:
    * `AtomicPhase`
    * `CriticalSections`
    * `CriticalSections.step`
    * `KConditionVariable.sections`
    * `KConditionVariable.Exclusive`

  Key theorems include:
    * `KConditionVariable.Exclusive.step`
    * `KConditionVariable.sections_step`
    * `KConditionVariable.sections_atomic`
    * `KConditionVariable.wait_covered`
-/

------------------------------------------------------------
-- Atomic Sections
------------------------------------------------------------

namespace KDoth

/- Where a thread is between its critical sections. -/
inductive AtomicPhase (Value Name : Type) where
  | outside
  | exited (c : Name) (value : Value)
  | notified (c : Name) (value : Value)
  | blocked (c : Name)
  | awake (c : Name)
  | left (c : Name)
deriving DecidableEq

/- The data and the threads, without a mutex. -/
structure CriticalSections
    (Thread Data Value Name : Type) where
  data : Data
  phase : Thread → AtomicPhase Value Name

inductive AtomicStep (Thread Name : Type) where
  | enter (t : Thread) (c : Name)
  | recheck (t : Thread)
  | spurious (t : Thread)
  | notify (t : Thread) (woken : Thread → Bool)
  | finish (t : Thread)

namespace AtomicPhase

variable {Value Name : Type}

def waits : AtomicPhase Value Name → Bool
| .blocked _ => true
| _ => false

def wake : AtomicPhase Value Name → AtomicPhase Value Name
| .blocked c => .awake c
| phase => phase

end AtomicPhase

namespace CriticalSections

variable {Thread Data Value Name : Type}
variable [DecidableEq Thread]

def setPhase
    (s : CriticalSections Thread Data Value Name)
    (t : Thread)
    (phase : AtomicPhase Value Name) :
    CriticalSections Thread Data Value Name :=
  { s with phase := Function.update s.phase t phase }

def wakeThreads
    (s : CriticalSections Thread Data Value Name)
    (woken : Thread → Bool) :
    CriticalSections Thread Data Value Name :=
  { s with
    phase := fun u =>
      if woken u then (s.phase u).wake else s.phase u }

def waiting
    (s : CriticalSections Thread Data Value Name)
    (u : Thread) : Bool :=
  (s.phase u).waits

variable (program : Name → SectionCall Data Value)

/- A whole section, or the first turn of a wait. -/
def enter
    (s : CriticalSections Thread Data Value Name)
    (t : Thread)
    (c : Name) :
    CriticalSections Thread Data Value Name :=
  match program c with
  | .update body _ =>
      { s.setPhase t (.exited c (body s.data).2) with
        data := (body s.data).1 }
  | .await predicate =>
      if predicate s.data then s.setPhase t (.blocked c)
      else s.setPhase t (.left c)

/- Another turn of a wait. -/
def recheck
    (s : CriticalSections Thread Data Value Name)
    (t : Thread)
    (c : Name) :
    Option (CriticalSections Thread Data Value Name) :=
  match program c with
  | .update _ _ => none
  | .await predicate =>
      if predicate s.data then
        some (s.setPhase t (.blocked c))
      else some (s.setPhase t (.left c))

def step
    [Fintype Thread]
    (s : CriticalSections Thread Data Value Name) :
    AtomicStep Thread Name →
      Option (CriticalSections Thread Data Value Name)
| .enter t c =>
    match s.phase t with
    | .outside => some (s.enter program t c)
    | _ => none
| .recheck t =>
    match s.phase t with
    | .awake c => s.recheck program t c
    | _ => none
| .spurious t =>
    match s.phase t with
    | .blocked c => some (s.setPhase t (.awake c))
    | _ => none
| .notify t woken =>
    match s.phase t with
    | .exited c value =>
        if
          KConditionVariable.Wakes s.waiting woken
            (KConditionVariable.notification program c value)
        then
          some
            ((s.wakeThreads woken).setPhase t
              (.notified c value))
        else none
    | _ => none
| .finish t =>
    match s.phase t with
    | .exited c value =>
        match
          KConditionVariable.notification program c value
        with
        | .none => some (s.setPhase t .outside)
        | _ => none
    | .notified _ _ => some (s.setPhase t .outside)
    | .left _ => some (s.setPhase t .outside)
    | _ => none

/- The calls that return. -/
def returned
    (s : CriticalSections Thread Data Value Name) :
    AtomicStep Thread Name →
      Option (Thread × Name × Option Value)
| .finish t =>
    match s.phase t with
    | .exited c value => some (t, c, some value)
    | .notified c value => some (t, c, some value)
    | .left c => some (t, c, none)
    | _ => none
| _ => none

def idle (data : Data) :
    CriticalSections Thread Data Value Name where
  data := data
  phase := fun _ => .outside

end CriticalSections

/- Threads whose sections are atomic. -/
def criticalSections
    {Data Value Name : Type}
    (Thread : Type)
    [Fintype Thread]
    [DecidableEq Thread]
    (program : Name → SectionCall Data Value)
    (initial : Data) :
    TransitionSystem
      (CriticalSections Thread Data Value Name)
      (AtomicStep Thread Name) where
  Init s := s = .idle initial
  step := CriticalSections.step program

end KDoth

------------------------------------------------------------
-- What the Mutex Protects
------------------------------------------------------------

namespace KDoth

namespace KConditionVariable

variable {Thread Data Value Name : Type}
variable {program : Name → SectionCall Data Value}

/-
  The owner of the mutex is the thread that has it, and what
  this thread knows of the data is still so.
-/
structure Exclusive
    (program : Name → SectionCall Data Value)
    (s : KConditionVariable Thread Data Value Name) :
    Prop where
  owner : ∀ t, (s.phase t).locks = true ↔ s.owner = some t
  loaded :
    ∀ t c data, s.phase t = .loaded c data → data = s.data
  tested :
    ∀ t c again, s.phase t = .tested c again →
      ∃ predicate,
        program c = .await predicate ∧
          predicate s.data = true

variable [DecidableEq Thread]
variable {s s' : KConditionVariable Thread Data Value Name}
variable {t u : Thread}

namespace Exclusive

/- The thread that has the mutex is the only one. -/
omit [DecidableEq Thread] in
theorem eq_of_locks
    (hExclusive : Exclusive program s)
    (hOne : (s.phase t).locks = true)
    (hOther : (s.phase u).locks = true) :
    u = t := by
  have hOwner := (hExclusive.owner t).mp hOne
  rw [(hExclusive.owner u).mp hOther] at hOwner
  cases hOwner
  rfl

/- A thread goes on, and takes, keeps or gives the mutex. -/
theorem setPhase
    {phase : SectionPhase Data Value Name}
    {owner : Option Thread}
    (hExclusive : Exclusive program s)
    (hOwner :
      owner = some t ∧ phase.locks = true ∧
          (s.owner = none ∨ s.owner = some t) ∨
        owner = none ∧ phase.locks = false ∧
          s.owner = some t ∨
        owner = s.owner ∧ phase.locks = (s.phase t).locks)
    (hLoaded :
      ∀ c data, phase = .loaded c data → data = s.data)
    (hTested :
      ∀ c again, phase = .tested c again →
        ∃ predicate,
          program c = .await predicate ∧
            predicate s.data = true) :
    Exclusive program
      ((s.setPhase t phase).setOwner owner) where
  owner := by
    intro u
    show (Function.update s.phase t phase u).locks = true ↔
      owner = some u
    by_cases hSame : u = t
    · subst hSame
      rw [Function.update_self]
      rcases hOwner with
        ⟨rfl, hLocks, _⟩ | ⟨rfl, hFree, _⟩ | ⟨rfl, hKeeps⟩
      · simp [hLocks]
      · simp [hFree]
      · rw [hKeeps]
        exact hExclusive.owner u
    · rw [Function.update_of_ne hSame, hExclusive.owner u]
      rcases hOwner with
        ⟨rfl, _, hNone | hSome⟩ | ⟨rfl, _, hSome⟩ | ⟨rfl, _⟩
      · simp [hNone, Ne.symm hSame]
      · simp [hSome, Ne.symm hSame]
      · simp [hSome, Ne.symm hSame]
      · exact Iff.rfl
  loaded := by
    intro u c data hPhase
    have hPhase' :
        Function.update s.phase t phase u = .loaded c data :=
      hPhase
    by_cases hSame : u = t
    · subst hSame
      rw [Function.update_self] at hPhase'
      exact hLoaded c data hPhase'
    · rw [Function.update_of_ne hSame] at hPhase'
      exact hExclusive.loaded u c data hPhase'
  tested := by
    intro u c again hPhase
    have hPhase' :
        Function.update s.phase t phase u = .tested c again :=
      hPhase
    by_cases hSame : u = t
    · subst hSame
      rw [Function.update_self] at hPhase'
      exact hTested c again hPhase'
    · rw [Function.update_of_ne hSame] at hPhase'
      exact hExclusive.tested u c again hPhase'

/- Nobody else knows the data that the owner changes. -/
theorem setData
    {phase : SectionPhase Data Value Name}
    (hExclusive : Exclusive program s)
    (hBefore : (s.phase t).locks = true)
    (hAfter : phase.locks = true)
    (hLoaded : ∀ c data, phase ≠ .loaded c data)
    (hTested : ∀ c again, phase ≠ .tested c again)
    (data : Data) :
    Exclusive program { s.setPhase t phase with data := data }
    where
  owner := by
    have hLocks : phase.locks = (s.phase t).locks :=
      hAfter.trans hBefore.symm
    have hKept :=
      hExclusive.setPhase (.inr (.inr ⟨rfl, hLocks⟩))
        (fun c data hIs => absurd hIs (hLoaded c data))
        (fun c again hIs => absurd hIs (hTested c again))
    exact hKept.owner
  loaded := by
    intro u c seen hPhase
    have hPhase' :
        Function.update s.phase t phase u = .loaded c seen :=
      hPhase
    by_cases hSame : u = t
    · subst hSame
      rw [Function.update_self] at hPhase'
      exact absurd hPhase' (hLoaded c seen)
    · rw [Function.update_of_ne hSame] at hPhase'
      have hLocks : (s.phase u).locks = true := by
        rw [hPhase']
        rfl
      exact
        absurd (hExclusive.eq_of_locks hBefore hLocks) hSame
  tested := by
    intro u c again hPhase
    have hPhase' :
        Function.update s.phase t phase u =
          .tested c again :=
      hPhase
    by_cases hSame : u = t
    · subst hSame
      rw [Function.update_self] at hPhase'
      exact absurd hPhase' (hTested c again)
    · rw [Function.update_of_ne hSame] at hPhase'
      have hLocks : (s.phase u).locks = true := by
        rw [hPhase']
        rfl
      exact
        absurd (hExclusive.eq_of_locks hBefore hLocks) hSame

/- Being woken has nothing to do with the mutex. -/
omit [DecidableEq Thread] in
theorem wakeThreads
    (hExclusive : Exclusive program s)
    (woken : Thread → Bool) :
    Exclusive program (s.wakeThreads woken) := by
  have hPhase (u : Thread) :
      (s.wakeThreads woken).phase u = s.phase u ∨
        ∃ c, s.phase u = .blocked c ∧
          (s.wakeThreads woken).phase u = .awake c := by
    cases hWoken : woken u with
    | false =>
        exact .inl (by simp [KConditionVariable.wakeThreads,
          hWoken])
    | true =>
        cases hOld : s.phase u with
        | blocked c =>
            exact .inr ⟨c, rfl, by
              simp [KConditionVariable.wakeThreads, hWoken,
                hOld, SectionPhase.wake]⟩
        | _ =>
            exact .inl (by
              simp [KConditionVariable.wakeThreads, hWoken,
                hOld, SectionPhase.wake])
  constructor
  · intro u
    rcases hPhase u with hSame | ⟨c, hOld, hNew⟩
    · rw [hSame]
      exact hExclusive.owner u
    · have hOwner := hExclusive.owner u
      rw [hOld] at hOwner
      rw [hNew]
      exact hOwner
  · intro u c data hLoaded
    rcases hPhase u with hSame | ⟨c', hOld, hNew⟩
    · rw [hSame] at hLoaded
      exact hExclusive.loaded u c data hLoaded
    · rw [hNew] at hLoaded
      cases hLoaded
  · intro u c again hTested
    rcases hPhase u with hSame | ⟨c', hOld, hNew⟩
    · rw [hSame] at hTested
      exact hExclusive.tested u c again hTested
    · rw [hNew] at hTested
      cases hTested

/- The phase before a test has the mutex. -/
omit [DecidableEq Thread] in
theorem locks_of_testsFrom
    {phase : SectionPhase Data Value Name}
    {c : Name}
    {again : Bool}
    (hFrom : TestsFrom phase c again) :
    phase.locks = true := by
  cases again with
  | false =>
      rw [show phase = .entered c from hFrom]
      rfl
  | true =>
      rw [show phase = .reentered c from hFrom]
      rfl

/- A call that is over has not the mutex. -/
omit [DecidableEq Thread] in
theorem locks_of_endsFrom
    {phase : SectionPhase Data Value Name}
    (hEnds : EndsFrom program phase) :
    phase.locks = false := by
  cases hEnds with
  | silent c value hNone => rfl
  | notified c value => rfl
  | left c => rfl

/- A thread without the mutex goes on without it. -/
theorem goesOn
    {phase : SectionPhase Data Value Name}
    (hExclusive : Exclusive program s)
    (hBefore : (s.phase t).locks = false)
    (hAfter : phase.locks = false) :
    Exclusive program (s.setPhase t phase) := by
  refine
    hExclusive.setPhase
      (.inr (.inr ⟨rfl, hAfter.trans hBefore.symm⟩)) ?_ ?_
  · rintro c data rfl
    cases hAfter
  · rintro c again rfl
    cases hAfter

/- A thread takes the mutex, which nobody has. -/
theorem takes
    {phase : SectionPhase Data Value Name}
    (hExclusive : Exclusive program s)
    (hOwner : s.owner = none)
    (hAfter : phase.locks = true)
    (hLoaded : ∀ c data, phase ≠ .loaded c data)
    (hTested : ∀ c again, phase ≠ .tested c again) :
    Exclusive program
      ((s.setPhase t phase).setOwner (some t)) :=
  hExclusive.setPhase (.inl ⟨rfl, hAfter, .inl hOwner⟩)
    (fun c data hIs => absurd hIs (hLoaded c data))
    (fun c again hIs => absurd hIs (hTested c again))

/- A thread gives the mutex up. -/
theorem gives
    {phase : SectionPhase Data Value Name}
    (hExclusive : Exclusive program s)
    (hBefore : (s.phase t).locks = true)
    (hAfter : phase.locks = false) :
    Exclusive program
      ((s.setPhase t phase).setOwner none) := by
  refine
    hExclusive.setPhase
      (.inr
        (.inl
          ⟨rfl, hAfter, (hExclusive.owner t).mp hBefore⟩))
      ?_ ?_
  · rintro c data rfl
    cases hAfter
  · rintro c again rfl
    cases hAfter

/- What every step keeps. -/
theorem next
    {l : SectionStep Thread Name}
    (hExclusive : Exclusive program s)
    (hMoves : Moves program s l s') :
    Exclusive program s' := by
  cases hMoves with
  | calls t c hPhase =>
      exact hExclusive.goesOn (by rw [hPhase]; rfl) rfl
  | enters t c hOwner hPhase =>
      exact
        hExclusive.takes hOwner rfl (by nofun) (by nofun)
  | reenters t c hOwner hPhase =>
      exact
        hExclusive.takes hOwner rfl (by nofun) (by nofun)
  | loads t c body notify hPhase hCall =>
      refine
        hExclusive.setPhase
          (.inr (.inr ⟨rfl, by rw [hPhase]; rfl⟩)) ?_
          (by nofun)
      rintro c' data ⟨⟩
      rfl
  | stores t c data body notify hPhase hCall =>
      exact
        hExclusive.setData (by rw [hPhase]; rfl) rfl
          (by nofun) (by nofun) (body data).1
  | finds t c again predicate hPhase hCall hTrue =>
      refine
        hExclusive.setPhase
          (.inr
            (.inr ⟨rfl, (locks_of_testsFrom hPhase).symm⟩))
          (by nofun) ?_
      rintro c' again' ⟨⟩
      exact ⟨predicate, hCall, hTrue⟩
  | passes t c again predicate hPhase hCall hFalse =>
      exact
        hExclusive.setPhase
          (.inr
            (.inr ⟨rfl, (locks_of_testsFrom hPhase).symm⟩))
          (by nofun) (by nofun)
  | blocks t c again hPhase =>
      exact hExclusive.gives (by rw [hPhase]; rfl) rfl
  | wakes t c hPhase =>
      exact hExclusive.goesOn (by rw [hPhase]; rfl) rfl
  | exits t c value hPhase =>
      exact hExclusive.gives (by rw [hPhase]; rfl) rfl
  | leaves t c hPhase =>
      exact hExclusive.gives (by rw [hPhase]; rfl) rfl
  | notifies t c value woken hPhase hWakes =>
      refine (hExclusive.wakeThreads woken).goesOn ?_ rfl
      simp [KConditionVariable.wakeThreads, hPhase,
        SectionPhase.wake]
      rfl
  | finishes t hPhase =>
      exact hExclusive.goesOn (locks_of_endsFrom hPhase) rfl

end Exclusive

end KConditionVariable

end KDoth

------------------------------------------------------------
-- Atomicity
------------------------------------------------------------

namespace KDoth

/-
  Where a thread is to others: a section takes effect when
  the data is written, and a turn of a wait when the thread
  blocks or finds the predicate false.
-/
def SectionPhase.atomic
    {Data Value Name : Type} :
    SectionPhase Data Value Name → AtomicPhase Value Name
| .outside => .outside
| .entering _ => .outside
| .entered _ => .outside
| .loaded _ _ => .outside
| .stored c value => .exited c value
| .exited c value => .exited c value
| .notified c value => .notified c value
| .tested _ false => .outside
| .tested c true => .awake c
| .blocked c => .blocked c
| .awake c => .awake c
| .reentered c => .awake c
| .satisfied c => .left c
| .left c => .left c

namespace KConditionVariable

variable {Thread Data Value Name : Type}

/- What others see of the data and the threads. -/
def sections
    (s : KConditionVariable Thread Data Value Name) :
    CriticalSections Thread Data Value Name where
  data := s.data
  phase := fun t => (s.phase t).atomic

variable [DecidableEq Thread]
variable {program : Name → SectionCall Data Value}
variable {s s' : KConditionVariable Thread Data Value Name}
variable {t : Thread} {l : SectionStep Thread Name}

theorem sections_setPhase
    (s : KConditionVariable Thread Data Value Name)
    (t : Thread)
    (phase : SectionPhase Data Value Name) :
    (s.setPhase t phase).sections =
      s.sections.setPhase t phase.atomic := by
  unfold sections setPhase CriticalSections.setPhase
  congr 1
  funext u
  by_cases hSame : u = t
  · subst hSame
    simp
  · simp [hSame]

/- A phase that looks the same changes nothing. -/
theorem sections_same
    {phase : SectionPhase Data Value Name}
    (owner : Option Thread)
    (hSame : phase.atomic = (s.phase t).atomic) :
    ((s.setPhase t phase).setOwner owner).sections =
      s.sections := by
  have hOwner :
      ((s.setPhase t phase).setOwner owner).sections =
        (s.setPhase t phase).sections := rfl
  rw [hOwner, sections_setPhase, hSame]
  unfold CriticalSections.setPhase sections
  congr 1
  exact Function.update_eq_self t _

omit [DecidableEq Thread] in
theorem sections_wakeThreads
    (s : KConditionVariable Thread Data Value Name)
    (woken : Thread → Bool) :
    (s.wakeThreads woken).sections =
      s.sections.wakeThreads woken := by
  unfold sections wakeThreads CriticalSections.wakeThreads
  congr 1
  funext u
  have hWake :
      (s.phase u).wake.atomic = (s.phase u).atomic.wake := by
    cases s.phase u with
    | tested c again => cases again <;> rfl
    | _ => rfl
  by_cases hWoken : woken u = true
  · simp [hWoken, hWake]
  · simp [hWoken]

omit [DecidableEq Thread] in
theorem sections_waiting
    (s : KConditionVariable Thread Data Value Name) :
    s.sections.waiting = s.waiting := by
  funext u
  show (s.phase u).atomic.waits = (s.phase u).waits
  cases s.phase u with
  | tested c again => cases again <;> rfl
  | _ => rfl

/- What a step is to others: nothing, or a step of theirs. -/
def SeenAs
    [Fintype Thread]
    (program : Name → SectionCall Data Value)
    (s : KConditionVariable Thread Data Value Name)
    (l : SectionStep Thread Name)
    (s' : KConditionVariable Thread Data Value Name) : Prop :=
  (s'.sections = s.sections ∧ s.returned l = none) ∨
    ∃ l',
      s.sections.step program l' = some s'.sections ∧
        s.sections.returned l' = s.returned l

variable [Fintype Thread]

/- The turn of a wait, for the first time or not. -/
theorem seen_turn
    {c : Name}
    (again : Bool)
    {predicate : Data → Bool}
    {phase : SectionPhase Data Value Name}
    (hCall : program c = .await predicate)
    (hFrom :
      (s.phase t).atomic =
        if again then .awake c else .outside)
    (hTo :
      phase.atomic =
        if predicate s.data then .blocked c else .left c) :
    ∃ l',
      s.sections.step program l' =
          some (s.setPhase t phase).sections ∧
        s.sections.returned l' = none := by
  have hPhase : s.sections.phase t = (s.phase t).atomic := rfl
  have hData : s.sections.data = s.data := rfl
  rw [sections_setPhase, hTo]
  rw [hFrom] at hPhase
  cases again with
  | false =>
      refine ⟨.enter t c, ?_, rfl⟩
      rw [if_neg Bool.false_ne_true] at hPhase
      simp only [CriticalSections.step, hPhase,
        CriticalSections.enter, hCall, hData]
      split <;> rfl
  | true =>
      refine ⟨.recheck t, ?_, rfl⟩
      rw [if_pos rfl] at hPhase
      simp only [CriticalSections.step, hPhase,
        CriticalSections.recheck, hCall, hData]
      split <;> rfl

/- A call that ends does so for others. -/
theorem seen_finish
    (hEnds : EndsFrom program (s.phase t)) :
    s.sections.step program (.finish t) =
        some (s.setPhase t .outside).sections ∧
      s.sections.returned (.finish t) =
        s.returned (.finish t) := by
  have hPhase : s.sections.phase t = (s.phase t).atomic := rfl
  rw [sections_setPhase]
  cases hBefore : s.phase t with
  | exited c value =>
      rw [hBefore] at hEnds hPhase
      cases hEnds with
      | silent _ _ hNone =>
          simp [CriticalSections.step, hPhase,
            SectionPhase.atomic, hNone,
            CriticalSections.returned, returned, hBefore]
  | notified c value =>
      rw [hBefore] at hPhase
      simp [CriticalSections.step, hPhase,
        SectionPhase.atomic, CriticalSections.returned,
        returned, hBefore]
  | left c =>
      rw [hBefore] at hPhase
      simp [CriticalSections.step, hPhase,
        SectionPhase.atomic, CriticalSections.returned,
        returned, hBefore]
  | _ =>
      rw [hBefore] at hEnds
      cases hEnds

/- Every step is seen as one of atomic sections, or not. -/
theorem sections_step
    (hExclusive : Exclusive program s)
    (hMoves : Moves program s l s') :
    SeenAs program s l s' := by
  cases hMoves with
  | calls t c hPhase =>
      refine .inl ⟨sections_same _ ?_, rfl⟩
      rw [hPhase]
      rfl
  | enters t c hOwner hPhase =>
      refine .inl ⟨sections_same _ ?_, rfl⟩
      rw [hPhase]
      rfl
  | reenters t c hOwner hPhase =>
      refine .inl ⟨sections_same _ ?_, rfl⟩
      rw [hPhase]
      rfl
  | loads t c body notify hPhase hCall =>
      refine .inl ⟨sections_same _ ?_, rfl⟩
      rw [hPhase]
      rfl
  | stores t c data body notify hPhase hCall =>
      have hSeen : data = s.data :=
        hExclusive.loaded t c data hPhase
      have hOutside : s.sections.phase t = .outside := by
        show (s.phase t).atomic = _
        rw [hPhase]
        rfl
      have hData : s.sections.data = s.data := rfl
      subst hSeen
      refine .inr ⟨.enter t c, ?_, rfl⟩
      have hAfter :
          sections
              { s.setPhase t (.stored c (body s.data).2) with
                data := (body s.data).1 } =
            { (s.setPhase t
                (.stored c (body s.data).2)).sections with
              data := (body s.data).1 } := rfl
      rw [hAfter, sections_setPhase]
      simp only [CriticalSections.step, hOutside,
        CriticalSections.enter, hCall, hData]
      rfl
  | finds t c again predicate hPhase hCall hTrue =>
      refine .inl ⟨sections_same _ ?_, rfl⟩
      cases again with
      | false =>
          rw [show s.phase t = .entered c from hPhase]
          rfl
      | true =>
          rw [show s.phase t = .reentered c from hPhase]
          rfl
  | passes t c again predicate hPhase hCall hFalse =>
      refine .inr (seen_turn again hCall ?_ ?_)
      · cases again with
        | false =>
            rw [show s.phase t = .entered c from hPhase]
            rfl
        | true =>
            rw [show s.phase t = .reentered c from hPhase]
            rfl
      · rw [hFalse]
        rfl
  | blocks t c again hPhase =>
      rcases hExclusive.tested t c again hPhase with
        ⟨predicate, hCall, hTrue⟩
      refine .inr (seen_turn again hCall ?_ ?_)
      · rw [hPhase]
        cases again <;> rfl
      · rw [hTrue]
        rfl
  | wakes t c hPhase =>
      refine .inr ⟨.spurious t, ?_, rfl⟩
      have hBlocked : s.sections.phase t = .blocked c := by
        show (s.phase t).atomic = _
        rw [hPhase]
        rfl
      rw [sections_setPhase]
      simp only [CriticalSections.step, hBlocked]
      rfl
  | exits t c value hPhase =>
      refine .inl ⟨sections_same _ ?_, rfl⟩
      rw [hPhase]
      rfl
  | leaves t c hPhase =>
      refine .inl ⟨sections_same _ ?_, rfl⟩
      rw [hPhase]
      rfl
  | notifies t c value woken hPhase hWakes =>
      refine .inr ⟨.notify t woken, ?_, rfl⟩
      have hExited :
          s.sections.phase t = .exited c value := by
        show (s.phase t).atomic = _
        rw [hPhase]
        rfl
      rw [← sections_waiting] at hWakes
      rw [sections_setPhase, sections_wakeThreads]
      simp only [CriticalSections.step, hExited,
        if_pos hWakes]
      rfl
  | finishes t hPhase =>
      exact .inr ⟨.finish t, seen_finish hPhase⟩

variable (Thread) in
/- The threads refine those with atomic sections. -/
theorem sections_simulate
    (program : Name → SectionCall Data Value)
    (initial : Data) :
    TransitionSystem.Simulates
      (conditionVariable Thread program initial) returned
      (criticalSections Thread program initial)
      CriticalSections.returned
      (fun s u => Exclusive program s ∧ u = s.sections) where
  init := by
    rintro s rfl
    refine ⟨_, rfl, ?_, rfl⟩
    exact
      { owner := fun t => by simp [idle, SectionPhase.locks]
        loaded := nofun
        tested := nofun }
  step := by
    rintro s l s' u ⟨hExclusive, rfl⟩ hStep
    have hMoves := step_inv hStep
    have hNext := hExclusive.next hMoves
    rcases sections_step hExclusive hMoves with
      ⟨hSame, hSilent⟩ | ⟨l', hAbove, hSeen⟩
    · refine ⟨[], s.sections, rfl, ?_, hNext, hSame.symm⟩
      rw [hSilent]
      rfl
    · have hAbove' :
          (criticalSections Thread program initial).step
            s.sections l' = some s'.sections :=
        hAbove
      rcases TransitionSystem.exec_single
          CriticalSections.returned hAbove' with
        ⟨hExec, hObserve⟩
      refine ⟨[l'], s'.sections, hExec, ?_, hNext, rfl⟩
      rw [hObserve, hSeen]

/-
  Whatever threads do with a condition variable, they could
  have done with each critical section, and each turn of a
  wait, as one step: the same calls return the same values in
  the same order, and the data is the same in the end.
-/
theorem sections_atomic
    {initial : Data}
    {ls : List (SectionStep Thread Name)}
    (hExec :
      (conditionVariable Thread program initial).exec
        (idle initial) ls = some s) :
    ∃ ls',
      (criticalSections Thread program initial).exec
          (.idle initial) ls' = some s.sections ∧
        (criticalSections Thread program initial).observe
            CriticalSections.returned (.idle initial) ls' =
          (conditionVariable Thread program initial).observe
            returned (idle initial) ls := by
  have hSim :=
    sections_simulate Thread program initial
  have hStart :
      Exclusive program
          (idle initial :
            KConditionVariable Thread Data Value Name) ∧
        CriticalSections.idle initial =
          (idle initial :
            KConditionVariable Thread Data Value
              Name).sections := by
    rcases hSim.init _ rfl with ⟨u, hInit, hExclusive, hEq⟩
    exact ⟨hExclusive, rfl⟩
  rcases hSim.exec hStart hExec with
    ⟨ls', u, hAbove, hSeen, _, rfl⟩
  exact ⟨ls', hAbove, hSeen⟩

/- A flag that is set, and that threads wait for. -/
def flagProgram : Bool → SectionCall Bool Unit
| true => .update (fun _ => (true, ())) fun _ => .all
| false => .await fun flag => !flag

/- One thread is blocked until another has set the flag. -/
def flagSteps : List (SectionStep (Fin 2) Bool) :=
  [.call 1 false, .enter 1, .access 1, .block 1,
    .call 0 true, .enter 0, .access 0, .access 0]

theorem sections_atomic_of_flag :
    ∃ s : KConditionVariable (Fin 2) Bool Unit Bool,
      s.data = true ∧
        ∃ ls',
          (criticalSections (Fin 2) flagProgram false).exec
              (.idle false) ls' = some s.sections ∧
            (criticalSections (Fin 2) flagProgram
                false).observe CriticalSections.returned
                  (.idle false) ls' =
              [(0, true, some ()), (1, false, none)] := by
  have hExec :
      (conditionVariable (Fin 2) flagProgram false).exec
          (idle false)
          (flagSteps ++
            [.exit 0, .notify 0 (· == 1), .finish 0,
              .enter 1, .access 1, .exit 1, .finish 1]) =
        some _ := rfl
  rcases sections_atomic hExec with ⟨ls', hAbove, hSeen⟩
  exact ⟨_, rfl, ls', hAbove, hSeen⟩

end KConditionVariable

end KDoth

------------------------------------------------------------
-- Wakeups
------------------------------------------------------------

namespace KDoth

namespace KConditionVariable

variable {Thread Data Value Name : Type}

/-
  An update after which a wait could pass, and before which
  it could not, is one after which all threads are notified.
-/
def Announces
    (program : Name → SectionCall Data Value) : Prop :=
  ∀ c body notify c' predicate data,
    program c = .update body notify →
      program c' = .await predicate →
        predicate data = true →
          predicate (body data).1 = false →
            notify (body data).2 = .all

/- A thread is about to notify all others. -/
def Announcing
    (program : Name → SectionCall Data Value)
    (s : KConditionVariable Thread Data Value Name)
    (u : Thread) : Prop :=
  ∃ c value,
    (s.phase u).atomic = .exited c value ∧
      notification program c value = .all

/- A thread is blocked with reason, or is going to be woken. -/
def Covered
    (program : Name → SectionCall Data Value)
    (s : KConditionVariable Thread Data Value Name) : Prop :=
  ∀ t c predicate,
    s.phase t = .blocked c →
      program c = .await predicate →
        predicate s.data = false →
          ∃ u, Announcing program s u

variable [DecidableEq Thread]
variable {program : Name → SectionCall Data Value}
variable {s s' : KConditionVariable Thread Data Value Name}
variable {t : Thread}

namespace Covered

/- A thread goes on, but for one that is to notify others. -/
theorem setPhase
    {phase : SectionPhase Data Value Name}
    (hCovered : Covered program s)
    (owner : Option Thread)
    (hBlocks :
      ∀ c predicate, phase = .blocked c →
        program c = .await predicate →
          predicate s.data = true)
    (hKeeps :
      ∀ c value, (s.phase t).atomic = .exited c value →
        notification program c value = .all →
          phase.atomic = .exited c value) :
    Covered program
      ((s.setPhase t phase).setOwner owner) := by
  intro u c predicate hPhase hCall hFalse
  have hPhase' :
      Function.update s.phase t phase u = .blocked c :=
    hPhase
  have hFalse' : predicate s.data = false := hFalse
  by_cases hSame : u = t
  · subst hSame
    rw [Function.update_self] at hPhase'
    have hTrue := hBlocks c predicate hPhase' hCall
    rw [hTrue] at hFalse'
    cases hFalse'
  · rw [Function.update_of_ne hSame] at hPhase'
    rcases hCovered u c predicate hPhase' hCall hFalse' with
      ⟨x, c', value, hExited, hAll⟩
    refine ⟨x, c', value, ?_, hAll⟩
    show (Function.update s.phase t phase x).atomic = _
    by_cases hSelf : x = t
    · subst hSelf
      rw [Function.update_self]
      exact hKeeps c' value hExited hAll
    · rw [Function.update_of_ne hSelf]
      exact hExited

/- A thread that is not to notify others goes on. -/
theorem goesOn
    {phase : SectionPhase Data Value Name}
    (hCovered : Covered program s)
    (owner : Option Thread)
    (hNot : ∀ c, phase ≠ .blocked c)
    (hQuiet : ∀ c value, (s.phase t).atomic ≠ .exited c value) :
    Covered program
      ((s.setPhase t phase).setOwner owner) :=
  hCovered.setPhase owner
    (fun c _ hIs _ => absurd hIs (hNot c))
    (fun c value hIs _ => absurd hIs (hQuiet c value))

/- A call that ends has notified, if it had to. -/
theorem finish
    (hCovered : Covered program s)
    (hEnds : EndsFrom program (s.phase t)) :
    Covered program (s.setPhase t .outside) := by
  refine hCovered.setPhase s.owner (by nofun) ?_
  intro c value hExited hAll
  cases hPhase : s.phase t with
  | exited c' value' =>
      rw [hPhase] at hEnds hExited
      cases hExited
      cases hEnds with
      | silent _ _ hNone =>
          rw [hNone] at hAll
          cases hAll
  | stored c' value' =>
      rw [hPhase] at hEnds
      cases hEnds
  | tested c' again =>
      rw [hPhase] at hEnds
      cases hEnds
  | _ =>
      rw [hPhase] at hExited
      cases hExited

/- The update announces what it made possible. -/
theorem store
    {c : Name}
    {data : Data}
    {body : Data → Data × Value}
    {notify : Value → Notification}
    (hAnnounces : Announces program)
    (hCovered : Covered program s)
    (hPhase : s.phase t = .loaded c data)
    (hSeen : data = s.data)
    (hCall : program c = .update body notify) :
    Covered program
      { s.setPhase t (.stored c (body data).2) with
        data := (body data).1 } := by
  subst hSeen
  intro u c' predicate hBlocked hAwait hFalse
  have hBlocked' :
      Function.update s.phase t (.stored c (body s.data).2) u =
        .blocked c' :=
    hBlocked
  have hNe : u ≠ t := by
    rintro rfl
    rw [Function.update_self] at hBlocked'
    cases hBlocked'
  rw [Function.update_of_ne hNe] at hBlocked'
  cases hBefore : predicate s.data with
  | true =>
      refine ⟨t, c, (body s.data).2, ?_, ?_⟩
      · show
          (Function.update s.phase t
            (.stored c (body s.data).2) t).atomic = _
        rw [Function.update_self]
        rfl
      · unfold notification
        rw [hCall]
        exact
          hAnnounces c body notify c' predicate s.data hCall
            hAwait hBefore hFalse
  | false =>
      rcases hCovered u c' predicate hBlocked' hAwait
          hBefore with
        ⟨x, c'', value, hExited, hAll⟩
      have hOther : x ≠ t := by
        rintro rfl
        rw [hPhase] at hExited
        cases hExited
      refine ⟨x, c'', value, ?_, hAll⟩
      show
        (Function.update s.phase t
          (.stored c (body s.data).2) x).atomic = _
      rw [Function.update_of_ne hOther]
      exact hExited

/- Notifying all leaves nobody blocked. -/
theorem notify
    {c : Name}
    {value : Value}
    {woken : Thread → Bool}
    (hCovered : Covered program s)
    (hPhase : s.phase t = .exited c value)
    (hWakes :
      Wakes s.waiting woken (notification program c value)) :
    Covered program
      ((s.wakeThreads woken).setPhase t (.notified c value)) :=
  by
  intro u c' predicate hBlocked hAwait hFalse
  have hBlocked' :
      Function.update (s.wakeThreads woken).phase t
          (.notified c value) u = .blocked c' :=
    hBlocked
  have hNe : u ≠ t := by
    rintro rfl
    rw [Function.update_self] at hBlocked'
    cases hBlocked'
  rw [Function.update_of_ne hNe] at hBlocked'
  have hAsleep : woken u = false ∧ s.phase u = .blocked c' := by
    cases hWoken : woken u with
    | false =>
        simp only [wakeThreads, hWoken, Bool.false_eq_true,
          if_false] at hBlocked'
        exact ⟨rfl, hBlocked'⟩
    | true =>
        simp only [wakeThreads, hWoken, if_true] at hBlocked'
        cases hOld : s.phase u with
        | _ =>
            rw [hOld] at hBlocked'
            cases hBlocked'
  rcases hCovered u c' predicate hAsleep.2 hAwait hFalse with
    ⟨x, c'', value', hExited, hAll⟩
  by_cases hSelf : x = t
  · subst hSelf
    rw [hPhase] at hExited
    cases hExited
    rw [hAll] at hWakes
    have hBoth : woken u = s.waiting u := hWakes u
    rw [hAsleep.1, waiting, hAsleep.2] at hBoth
    cases hBoth
  · refine ⟨x, c'', value', ?_, hAll⟩
    show
      (Function.update (s.wakeThreads woken).phase t
        (.notified c value) x).atomic = _
    rw [Function.update_of_ne hSelf]
    cases hWoken : woken x with
    | false => simpa [wakeThreads, hWoken] using hExited
    | true =>
        cases hOld : s.phase x with
        | blocked c₀ =>
            rw [hOld] at hExited
            cases hExited
        | _ =>
            rw [hOld] at hExited
            simpa [wakeThreads, hWoken, hOld,
              SectionPhase.wake] using hExited

/- What every step keeps. -/
theorem next
    {l : SectionStep Thread Name}
    (hAnnounces : Announces program)
    (hExclusive : Exclusive program s)
    (hCovered : Covered program s)
    (hMoves : Moves program s l s') :
    Covered program s' := by
  cases hMoves with
  | calls t c hPhase =>
      exact
        hCovered.goesOn s.owner (by nofun)
          (by rw [hPhase]; nofun)
  | enters t c hOwner hPhase =>
      exact
        hCovered.goesOn _ (by nofun) (by rw [hPhase]; nofun)
  | reenters t c hOwner hPhase =>
      exact
        hCovered.goesOn _ (by nofun) (by rw [hPhase]; nofun)
  | loads t c body notify hPhase hCall =>
      exact
        hCovered.goesOn s.owner (by nofun)
          (by rw [hPhase]; nofun)
  | stores t c data body notify hPhase hCall =>
      exact
        hCovered.store hAnnounces hPhase
          (hExclusive.loaded t c data hPhase) hCall
  | finds t c again predicate hPhase hCall hTrue =>
      refine hCovered.goesOn s.owner (by nofun) ?_
      cases again with
      | false =>
          rw [show s.phase t = .entered c from hPhase]
          nofun
      | true =>
          rw [show s.phase t = .reentered c from hPhase]
          nofun
  | passes t c again predicate hPhase hCall hFalse =>
      refine hCovered.goesOn s.owner (by nofun) ?_
      cases again with
      | false =>
          rw [show s.phase t = .entered c from hPhase]
          nofun
      | true =>
          rw [show s.phase t = .reentered c from hPhase]
          nofun
  | blocks t c again hPhase =>
      rcases hExclusive.tested t c again hPhase with
        ⟨predicate, hCall, hTrue⟩
      refine hCovered.setPhase none ?_ ?_
      · rintro c' predicate' ⟨⟩ hCall'
        rw [hCall] at hCall'
        cases hCall'
        exact hTrue
      · rw [hPhase]
        cases again <;> nofun
  | wakes t c hPhase =>
      exact
        hCovered.goesOn s.owner (by nofun)
          (by rw [hPhase]; nofun)
  | exits t c value hPhase =>
      refine hCovered.setPhase none (by nofun) ?_
      rw [hPhase]
      exact fun _ _ hIs _ => hIs
  | leaves t c hPhase =>
      exact
        hCovered.goesOn none (by nofun)
          (by rw [hPhase]; nofun)
  | notifies t c value woken hPhase hWakes =>
      exact hCovered.notify hPhase hWakes
  | finishes t hPhase => exact hCovered.finish hPhase

end Covered

variable [Fintype Thread]

/- Every state that is reached has its waits covered. -/
theorem Covered.of_reachable
    {initial : Data}
    (hAnnounces : Announces program)
    (hReach :
      (conditionVariable Thread program initial).Reachable s) :
    Covered program s := by
  have hBoth : Exclusive program s ∧ Covered program s := by
    apply hReach.invariant
    · rintro s rfl
      refine ⟨?_, by nofun⟩
      exact
        { owner := fun t => by simp [idle, SectionPhase.locks]
          loaded := nofun
          tested := nofun }
    · rintro s l s' ⟨hExclusive, hCovered⟩ hStep
      have hMoves := step_inv hStep
      exact
        ⟨hExclusive.next hMoves,
          hCovered.next hAnnounces hExclusive hMoves⟩
  exact hBoth.2

/-
  No thread sleeps through what it waits for: while it is
  blocked and its predicate is false, some thread has changed
  the data and is about to notify all others.
-/
theorem wait_covered
    {initial : Data}
    {c : Name}
    {predicate : Data → Bool}
    (hAnnounces : Announces program)
    (hReach :
      (conditionVariable Thread program initial).Reachable s)
    (hBlocked : s.phase t = .blocked c)
    (hCall : program c = .await predicate)
    (hFalse : predicate s.data = false) :
    ∃ u, Announcing program s u := by
  have hCovered := Covered.of_reachable hAnnounces hReach
  exact hCovered t c predicate hBlocked hCall hFalse

/- The flag is set, and the other thread is blocked. -/
theorem wait_covered_of_flag :
    ∃ s : KConditionVariable (Fin 2) Bool Unit Bool,
      s.phase 1 = .blocked false ∧ s.data = true ∧
        ∃ u, Announcing flagProgram s u := by
  have hExec :
      (conditionVariable (Fin 2) flagProgram false).exec
        (idle false) flagSteps = some _ := rfl
  have hReach :=
    TransitionSystem.reachable_of_exec rfl hExec
  have hAnnounces : Announces flagProgram := by
    intro c body notify c' predicate data hUpdate _ _ _
    cases c with
    | false => cases hUpdate
    | true =>
        cases hUpdate
        rfl
  exact
    ⟨_, rfl, rfl,
      wait_covered (t := 1) hAnnounces hReach rfl rfl rfl⟩

end KConditionVariable

end KDoth
