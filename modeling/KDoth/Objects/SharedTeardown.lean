import KDoth.Objects.SharedSafety

/-
  What is left of the objects that threads share. When no
  thread holds anything nothing is left, and the releases that
  this takes come to an end: every step of a call uses up work
  that was paid for when the object was made or put into the
  pool.

  Key definitions include:
    * `SharedObjects.Quiet`
    * `SharedObjects.work`
    * `SharedStep.price`

  Key theorems include:
    * `SharedObjects.nothing_left`
    * `SharedObjects.Kept.work_next`
    * `SharedObjects.releases_end`
-/

------------------------------------------------------------
-- Nothing Left
------------------------------------------------------------

namespace KDoth

namespace SharedObjects

variable {Thread : Type}

/- No thread is in a call or has a reference. -/
def Quiet (s : SharedObjects Thread) : Prop :=
  ∀ t,
    s.Idle t ∧ (s.threads t).pool = [] ∧
      ∀ o, (s.threads t).held o = 0

variable [Fintype Thread] [DecidableEq Thread]

end SharedObjects

end KDoth

------------------------------------------------------------
-- Work
------------------------------------------------------------

namespace KDoth

namespace SharedEnding

/- The steps after the last release. -/
def steps : SharedEnding → Nat
| .free _ false => 2
| _ => 1

end SharedEnding

namespace ObjectThread

/- The steps that the calls of a thread still take. -/
def frameWork (a : ObjectThread) : Nat :=
  (a.frames.map
    (fun f => f.left.length + f.ending.steps)).sum

/- Besides, those that emptying its pool will take. -/
def work (a : ObjectThread) : Nat :=
  a.frameWork + a.pooled.length

end ObjectThread

namespace SharedStep

variable {Thread : Type}

/- A call under way goes on. -/
def isProceed : SharedStep Thread → Bool
| .proceed _ => true
| _ => false

/- What a step adds to the steps that calls will take. -/
def price : SharedStep Thread → Nat
| .objectNew _ fields true => fields.length + 2
| .autoreleasePoolAddObject _ _ granted => granted.toNat
| .autoreleaseMove _ _ granted => granted.toNat + 2
| .autoreleasePoolPop _ => 1
| _ => 0

end SharedStep

namespace SharedObjects

variable {Thread : Type}

/- The steps of the last release of an object. -/
def objectWork
    (s : SharedObjects Thread)
    (o : KObjectRef) : Nat :=
  s.alive o * ((s.fieldsOf o).length + 2)

/-
  The steps that are still to be taken before nothing is left,
  if every object that is alive is given up.
-/
def work
    [Fintype Thread]
    (s : SharedObjects Thread) : Nat :=
  total ObjectThread.work s.threads +
    ∑ i ∈ Finset.range s.nextAddress, s.objectWork ⟨i⟩

variable {s : SharedObjects Thread} {o x : KObjectRef}
variable {t : Thread} {b : CountBranch}

/- The work of objects when one of them changes. -/
theorem sum_objectWork
    (s s' : SharedObjects Thread)
    (hNext : s'.nextAddress = s.nextAddress)
    (hMade : o.address < s.nextAddress)
    (hOther :
      ∀ x, x ≠ o → s'.objectWork x = s.objectWork x) :
    (∑ i ∈ Finset.range s'.nextAddress, s'.objectWork ⟨i⟩) +
        s.objectWork o =
      (∑ i ∈ Finset.range s.nextAddress, s.objectWork ⟨i⟩) +
        s'.objectWork o := by
  rw [hNext]
  have hMem : o.address ∈ Finset.range s.nextAddress :=
    Finset.mem_range.mpr hMade
  have hOld :=
    Finset.sum_erase_add (Finset.range s.nextAddress)
      (fun i => s.objectWork ⟨i⟩) hMem
  have hNew :=
    Finset.sum_erase_add (Finset.range s.nextAddress)
      (fun i => s'.objectWork ⟨i⟩) hMem
  have hSame :
      ∑ i ∈ (Finset.range s.nextAddress).erase o.address,
          s'.objectWork ⟨i⟩ =
        ∑ i ∈ (Finset.range s.nextAddress).erase o.address,
          s.objectWork ⟨i⟩ := by
    apply Finset.sum_congr rfl
    intro i hi
    apply hOther
    intro hEq
    exact
      Finset.ne_of_mem_erase hi
        (congrArg KObjectRef.address hEq)
  change _ + s.objectWork o = _ at hOld
  change _ + s'.objectWork o = _ at hNew
  omega

/- Only the object at an address has its work there. -/
theorem objectWork_put_of_ne
    {block : Option SharedObject}
    (hNe : x ≠ o) :
    (s.put o block).objectWork x = s.objectWork x := by
  unfold objectWork
  rw [alive_put_of_ne hNe]
  simp [fieldsOf, put, hNe]

theorem objectWork_of_alive
    {object : SharedObject}
    (hAlive : s.alive o = 1)
    (hObject : s.objects o = some object) :
    s.objectWork o = object.fields.length + 2 := by
  simp [objectWork, fieldsOf, hAlive, hObject]

theorem objectWork_of_not_alive
    (hNot : s.alive o = 0) :
    s.objectWork o = 0 := by
  rw [objectWork, hNot, Nat.zero_mul]

variable [Fintype Thread]

/- What the work is when one object is written. -/
theorem work_put
    (block : Option SharedObject)
    (hMade : o.address < s.nextAddress) :
    (s.put o block).work + s.objectWork o =
      s.work + (s.put o block).objectWork o := by
  have hObjects :=
    sum_objectWork s (s.put o block) rfl hMade
      (fun x hNe => objectWork_put_of_ne hNe)
  change total _ s.threads + _ + _ = total _ s.threads + _ + _
  omega

variable [DecidableEq Thread]

/- The work of the threads when one of them changes. -/
theorem work_setThread
    (a : ObjectThread) :
    (s.setThread t a).work + (s.threads t).work =
      s.work + a.work := by
  have hTotal := total_update ObjectThread.work s.threads t a
  change
    total _ (Function.update s.threads t a) +
        ∑ i ∈ Finset.range s.nextAddress, s.objectWork ⟨i⟩ +
          _ =
      total _ s.threads + _ + _
  omega

/- What code holds is no work. -/
theorem work_gain :
    (s.gain t o).work = s.work := by
  have hWork :=
    work_setThread (s := s) (t := t)
      { s.threads t with
        held := fun x =>
          (s.threads t).held x + [o].count x }
  exact Nat.add_right_cancel hWork

theorem work_lose
    {l : List KObjectRef} :
    (s.lose t l).work = s.work := by
  have hWork :=
    work_setThread (s := s) (t := t)
      { s.threads t with
        held := fun x => (s.threads t).held x - l.count x }
  exact Nat.add_right_cancel hWork

theorem work_push
    {f : SharedFrame}
    (hClears : f.clears = false) :
    (s.push t f).work =
      s.work + (f.left.length + f.ending.steps) := by
  have hWork :=
    work_setThread (s := s) (t := t)
      ((s.threads t).setFrames (f :: (s.threads t).frames))
  have hThread :
      ((s.threads t).setFrames
          (f :: (s.threads t).frames)).work =
        (s.threads t).work +
          (f.left.length + f.ending.steps) := by
    simp only [ObjectThread.work, ObjectThread.frameWork,
      ObjectThread.pooled, ObjectThread.clearing,
      ObjectThread.setFrames, List.any_cons, hClears,
      Bool.false_or, List.map_cons, List.sum_cons]
    omega
  rw [hThread] at hWork
  change (s.setThread t _).work = _
  omega

end SharedObjects

end KDoth

------------------------------------------------------------
-- Work Of Each Step
------------------------------------------------------------

namespace KDoth

namespace ObjectThread

variable {a : ObjectThread} {f : SharedFrame}
variable {rest : List SharedFrame}

/- The work of a thread and of its innermost call. -/
theorem frameWork_cons :
    (a.setFrames (f :: rest)).frameWork =
      f.left.length + f.ending.steps +
        (a.setFrames rest).frameWork := by
  simp only [frameWork, setFrames, List.map_cons,
    List.sum_cons]

theorem pooled_cons
    (hClears : f.clears = false) :
    (a.setFrames (f :: rest)).pooled =
      (a.setFrames rest).pooled := by
  simp only [pooled, clearing, setFrames, List.any_cons, hClears,
    Bool.false_or]

theorem pooled_of_clears
    (hClears : f.clears = true) :
    (a.setFrames (f :: rest)).pooled = [] := by
  simp only [pooled, clearing, setFrames, List.any_cons, hClears,
    Bool.true_or, cond_true]

end ObjectThread

namespace SharedObjects

variable {Thread : Type} [Fintype Thread] [DecidableEq Thread]
variable {s : SharedObjects Thread} {o x : KObjectRef}
variable {t : Thread} {b : CountBranch}
variable {f : SharedFrame} {rest : List SharedFrame}

/- One call takes the place of the innermost one. -/
theorem work_replace
    (hFrames : (s.threads t).frames = f :: rest)
    (f' : SharedFrame)
    (hClears : f'.clears = f.clears) :
    (s.setFrames t (f' :: rest)).work +
        (f.left.length + f.ending.steps) =
      s.work + (f'.left.length + f'.ending.steps) := by
  have hWork :=
    work_setThread (s := s) (t := t)
      ((s.threads t).setFrames (f' :: rest))
  have hPooled :
      ((s.threads t).setFrames (f' :: rest)).pooled =
        ((s.threads t).setFrames (f :: rest)).pooled := by
    cases hKind : f.clears with
    | false =>
        rw [ObjectThread.pooled_cons hKind,
          ObjectThread.pooled_cons (hClears.trans hKind)]
    | true =>
        rw [ObjectThread.pooled_of_clears hKind,
          ObjectThread.pooled_of_clears (hClears.trans hKind)]
  have hOld : (s.threads t).work = _ :=
    congrArg ObjectThread.work (threads_eq hFrames)
  unfold ObjectThread.work at hWork hOld
  rw [hPooled, ObjectThread.frameWork_cons] at hWork
  rw [ObjectThread.frameWork_cons] at hOld
  change (s.setThread t _).work + _ = _
  omega

/- The innermost call ends. -/
theorem work_rest
    (hFrames : (s.threads t).frames = f :: rest)
    (hClears : f.clears = false)
    (hLeft : f.left = []) :
    (s.setFrames t rest).work + f.ending.steps = s.work := by
  have hWork :=
    work_setThread (s := s) (t := t)
      ((s.threads t).setFrames rest)
  have hOld : (s.threads t).work = _ :=
    congrArg ObjectThread.work (threads_eq hFrames)
  unfold ObjectThread.work at hWork hOld
  rw [ObjectThread.frameWork_cons,
    ObjectThread.pooled_cons hClears, hLeft,
    List.length_nil] at hOld
  change (s.setThread t _).work + _ = _
  omega

/- The loop over the pool ends. -/
theorem work_clear
    (hFrames :
      (s.threads t).frames =
        { left := [], ending := .clear } :: rest) :
    (s.setThread t
        { s.threads t with
          pool := [], frames := rest }).work + 1 = s.work := by
  have hWork :=
    work_setThread (s := s) (t := t)
      { s.threads t with pool := [], frames := rest }
  have hNew :
      ObjectThread.pooled
        { s.threads t with pool := [], frames := rest } =
          [] := by
    simp only [ObjectThread.pooled, Bool.cond_self]
  have hOld : (s.threads t).work = _ :=
    congrArg ObjectThread.work (threads_eq hFrames)
  have hFrame :
      ObjectThread.frameWork
          { s.threads t with pool := [], frames := rest } =
        ((s.threads t).setFrames rest).frameWork := rfl
  have hPooled :
      ((s.threads t).setFrames
        ({ left := [], ending := .clear } :: rest)).pooled =
          [] :=
    ObjectThread.pooled_of_clears rfl
  unfold ObjectThread.work at hWork hOld
  rw [hNew, hFrame, List.length_nil] at hWork
  rw [ObjectThread.frameWork_cons, hPooled] at hOld
  change _ = [].length + 1 + _ + [].length at hOld
  simp only [List.length_nil] at hOld
  omega

/- The loop over the pool begins. -/
theorem work_drain
    (hClearing : (s.threads t).clearing = false) :
    (s.autoreleasePoolPop t).work = s.work + 1 := by
  have hWork :=
    work_setThread (s := s) (t := t)
      ((s.threads t).setFrames
        ({ left := (s.threads t).pool, ending := .clear } ::
          (s.threads t).frames))
  have hPooled :
      ((s.threads t).setFrames
        ({ left := (s.threads t).pool, ending := .clear } ::
          (s.threads t).frames)).pooled = [] :=
    ObjectThread.pooled_of_clears rfl
  have hBefore :
      (s.threads t).pooled = (s.threads t).pool := by
    rw [ObjectThread.pooled, hClearing]
    rfl
  have hNew :
      ((s.threads t).setFrames
          ({ left := (s.threads t).pool, ending := .clear } ::
            (s.threads t).frames)).work =
        (s.threads t).work + 1 := by
    unfold ObjectThread.work
    rw [hPooled, ObjectThread.frameWork_cons, hBefore]
    change
      (s.threads t).pool.length + 1 +
        (s.threads t).frameWork + 0 = _
    omega
  rw [hNew] at hWork
  unfold autoreleasePoolPop push
  change (s.setThread t _).work = _
  omega

/- A pool that is not emptied gets one more to release. -/
theorem work_pooled
    (hClearing : (s.threads t).clearing = false) :
    (s.pooled t o).work = s.work + 1 := by
  have hWork :=
    work_setThread (s := s) (t := t)
      { s.threads t with pool := (s.threads t).pool ++ [o] }
  have hNew :
      ObjectThread.work
          { s.threads t with
            pool := (s.threads t).pool ++ [o] } =
        (s.threads t).work + 1 := by
    unfold ObjectThread.work
    rw [ObjectThread.pooled_add hClearing, List.length_append,
      List.length_singleton, ← Nat.add_assoc]
    rfl
  rw [hNew] at hWork
  unfold pooled
  omega

namespace Kept

variable {g : RefGraph KObjectRef}
variable {pending left fields : List KObjectRef}

omit [DecidableEq Thread] in
/- To retain an object is no work. -/
theorem work_retain
    (hKept : s.Kept g pending)
    (hAlive : s.alive o = 1)
    (hRoom : s.Room o) :
    (s.retain b o).work = s.work := by
  rcases exists_of_present (s := s) (o := o) (by omega) with
    ⟨object, hObject⟩
  have hMade := hKept.lt_of_alive hAlive
  have hAfter := hKept.retain (b := b) hAlive hRoom
  have hAliveAfter : (s.retain b o).alive o = 1 :=
    hAfter.alive_of_node ((hKept.nodes o).mpr hAlive)
  rw [retain_eq hObject] at hAliveAfter ⊢
  have hWork :=
    work_put
      (some { object with refCount := object.refCount + 1 })
      hMade
  rw [objectWork_of_alive hAlive hObject,
    objectWork_of_alive hAliveAfter
      (Function.update_self _ _ _)] at hWork
  simp only at hWork
  omega

/- The work of a last release was there before. -/
theorem work_release
    (hKept : s.Kept g (o :: pending)) :
    (s.release b t o).work = s.work := by
  have hNode := hKept.balanced.mem_of_pending
  have hAlive := hKept.alive_of_node hNode
  have hMade := hKept.lt_of_alive hAlive
  rcases exists_of_present (s := s) (o := o) (by omega) with
    ⟨object, hObject⟩
  by_cases hOne : object.refCount = 1
  · rw [release_of_one hObject hOne, work_push rfl]
    have hWork :=
      work_put (some { object with refCount := 0 }) hMade
    rw [objectWork_of_alive hAlive hObject,
      objectWork_of_not_alive (alive_put_zero rfl)] at hWork
    change _ + (object.fields.length + 2) = _
    omega
  · rw [release_of_ne hObject hOne]
    have hCount : object.refCount - 1 ≠ 0 := by
      intro hZero
      apply hOne
      rw [← UInt32.sub_add_cancel object.refCount 1, hZero]
      rfl
    have hWork :=
      work_put
        (some { object with refCount := object.refCount - 1 })
        hMade
    rw [objectWork_of_alive hAlive hObject,
      objectWork_of_alive (alive_put_self hCount)
        (Function.update_self _ _ _)] at hWork
    simp only at hWork
    omega

/- The deinitializer is called, and is not to be called. -/
theorem work_callDeInit
    (hKept : s.Kept g [])
    (hFrames :
      (s.threads t).frames =
        { left := left, ending := .free o false } :: rest) :
    (s.callDeInit t o left rest).work + 1 = s.work := by
  have hAll :=
    work_replace hFrames
      { left := left, ending := .free o true } rfl
  have hEq :
      (s.callDeInit t o left rest).work =
        (s.setFrames t
          ({ left := left, ending := .free o true } ::
            rest)).work := by
    unfold SharedObjects.callDeInit
    rw [hKept.access_of_frame hFrames]
    rfl
  rw [hEq]
  simp only [SharedEnding.steps] at hAll
  omega

/- The object is freed and had no work left. -/
theorem work_free
    (hKept : s.Kept g [])
    (hFrames :
      (s.threads t).frames =
        { left := [], ending := .free o true } :: rest) :
    (s.finish t (.free o true) rest).work + 1 = s.work := by
  have hDying := hKept.dying_of_frame hFrames
  rcases exists_of_present (s := s) (o := o) (by omega) with
    ⟨object, hObject⟩
  have hOne := alive_add_dying hObject
  have hMade := hKept.lt_of_present (o := o) (by omega)
  have hPut := work_put none hMade
  have hNone : (s.put o none).alive o = 0 := by
    simp [alive, put]
  rw [objectWork_of_not_alive hNone,
    objectWork_of_not_alive (by omega)] at hPut
  have hRest :=
    work_rest (s := s.put o none) hFrames rfl rfl
  rw [finish_free (hKept.access_of_frame hFrames)]
  change ((s.put o none).setFrames t rest).work + 1 = _
  change _ + 1 = (s.put o none).work at hRest
  omega

/- A call that goes on uses up a step. -/
theorem work_proceed
    (hKept : s.Kept g [])
    (hBusy : ¬ s.Idle t) :
    (s.proceed b t).work + 1 = s.work := by
  cases hFrames : (s.threads t).frames with
  | nil => exact absurd hFrames hBusy
  | cons f rest =>
      rcases f with ⟨left, ending⟩
      cases left with
      | nil =>
          cases ending with
          | free o called =>
              cases called with
              | false =>
                  simp only [SharedObjects.proceed, hFrames]
                  exact hKept.work_callDeInit hFrames
              | true =>
                  simp only [SharedObjects.proceed, hFrames]
                  exact hKept.work_free hFrames
          | clear =>
              simp only [SharedObjects.proceed, hFrames]
              exact work_clear hFrames
          | done =>
              simp only [SharedObjects.proceed, hFrames]
              exact work_rest hFrames rfl rfl
      | cons x left =>
          have hNext := hKept.takeNext hFrames
          have hWork :
              (s.setFrames t
                  ({ left := left, ending := ending } ::
                    rest)).work + 1 = s.work := by
            have hAll :=
              work_replace hFrames
                { left := left, ending := ending } rfl
            simp only [List.length_cons] at hAll
            omega
          cases ending with
          | free o called =>
              cases called with
              | false =>
                  simp only [SharedObjects.proceed, hFrames]
                  exact hKept.work_callDeInit hFrames
              | true =>
                  have hAccess := hKept.access_of_frame hFrames
                  simp only [SharedObjects.proceed, hFrames,
                    hAccess]
                  rw [hNext.work_release]
                  exact hWork
          | clear =>
              simp only [SharedObjects.proceed, hFrames]
              rw [hNext.work_release]
              exact hWork
          | done =>
              simp only [SharedObjects.proceed, hFrames]
              rw [hNext.work_release]
              exact hWork

omit [DecidableEq Thread] in
/- A new object brings the work of its last release. -/
theorem work_created
    (s : SharedObjects Thread)
    (fields : List KObjectRef) :
    (s.created fields).work = s.work + (fields.length + 2) := by
  have hSelf :
      (s.created fields).objectWork ⟨s.nextAddress⟩ =
        fields.length + 2 := by
    have hOne : (1 : UInt32) ≠ 0 := by decide
    have hAlive :
        (s.created fields).alive ⟨s.nextAddress⟩ = 1 :=
      alive_put_self hOne
    exact
      objectWork_of_alive hAlive (Function.update_self _ _ _)
  have hOthers :
      ∑ i ∈ Finset.range s.nextAddress,
          (s.created fields).objectWork ⟨i⟩ =
        ∑ i ∈ Finset.range s.nextAddress, s.objectWork ⟨i⟩ := by
    apply Finset.sum_congr rfl
    intro i hi
    apply objectWork_put_of_ne
    intro hEq
    have hAddress := congrArg KObjectRef.address hEq
    have hLess := Finset.mem_range.mp hi
    change i = s.nextAddress at hAddress
    omega
  change
    total _ s.threads +
        ∑ i ∈ Finset.range (s.nextAddress + 1),
          (s.created fields).objectWork ⟨i⟩ =
      total _ s.threads + _ + _
  rw [Finset.sum_range_succ, hOthers, hSelf]
  omega

theorem work_objectNew :
    (s.objectNew t fields).work =
      s.work + (fields.length + 2) := by
  have hCreated := work_created (s.lose t fields) fields
  rw [work_lose] at hCreated
  exact work_gain.trans hCreated

/- An addition to the pool is to be released by the pop. -/
theorem work_add
    {granted : Bool}
    (hKept : s.Kept g pending)
    (hClearing : (s.threads t).clearing = false)
    (hAlive : s.alive o = 1)
    (hRoom : s.Room o) :
    (s.autoreleasePoolAddObject b t o granted).work =
      s.work + granted.toNat := by
  cases granted with
  | false => rfl
  | true =>
      have hStill :
          ((s.retain b o).threads t).clearing = false := by
        rw [threads_retain]
        exact hClearing
      have hPooled := work_pooled (o := o) hStill
      rw [hKept.work_retain hAlive hRoom] at hPooled
      exact hPooled

/- A step adds no more than its price. -/
theorem work_next
    {l : SharedStep Thread}
    (hKept : s.Kept g [])
    (hEnabled : s.Enabled l)
    (hRoomy : s.Roomy l) :
    (s.next b l).work + l.isProceed.toNat ≤
      s.work + l.price := by
  cases l with
  | objectNew t fields granted =>
      cases granted with
      | false => exact Nat.le_refl _
      | true => exact Nat.le_of_eq work_objectNew
  | objectRetain t o =>
      have hAlive := hKept.alive_of_uses hEnabled.2
      apply Nat.le_of_eq
      exact work_gain.trans (hKept.work_retain hAlive hRoomy)
  | retainField t o x =>
      rcases hKept.field_of_enabled hEnabled with
        ⟨hAliveField, hAccess⟩
      simp only [SharedObjects.next, hAccess]
      apply Nat.le_of_eq
      exact
        work_gain.trans (hKept.work_retain hAliveField hRoomy)
  | give t u o =>
      exact Nat.le_of_eq (work_gain.trans work_lose)
  | objectRelease t o =>
      have hLost := hKept.loseOne hEnabled.2
      exact
        Nat.le_of_eq (hLost.work_release.trans work_lose)
  | autoreleasePoolAddObject t o granted =>
      have hAlive := hKept.alive_of_uses hEnabled.2
      exact
        Nat.le_of_eq
          (hKept.work_add hEnabled.1.2 hAlive hRoomy.1)
  | autoreleaseMove t o granted =>
      have hAlive := hKept.alive_of_uses (.inl hEnabled.2)
      have hAdd :
          (s.autoreleasePoolAddObject b t o granted).work =
            s.work + granted.toNat :=
        hKept.work_add hEnabled.1.2 hAlive hRoomy.1
      apply Nat.le_of_eq
      refine (work_push rfl).trans ?_
      rw [work_lose, hAdd]
      rfl
  | autoreleasePoolPop t =>
      exact Nat.le_of_eq (work_drain hEnabled.2)
  | proceed t =>
      exact Nat.le_of_eq (hKept.work_proceed hEnabled)

end Kept

omit [DecidableEq Thread] in
/- No work was paid for in the beginning. -/
theorem work_initial :
    (initial : SharedObjects Thread).work = 0 := by
  have hThreads :
      total ObjectThread.work
          (initial : SharedObjects Thread).threads = 0 :=
    total_eq_zero_iff.mpr fun _ => rfl
  unfold work
  rw [hThreads]
  rfl

/- By induction on the work that is left. -/
theorem winds_down
    (b : CountBranch)
    (hKept : ∃ g, s.Kept g []) :
    ∃ rest s',
      (∀ l ∈ rest, l.isProceed = true) ∧
        rest.length ≤ s.work ∧
          (sharedObjects b Thread).exec s rest = some s' ∧
            ∀ t, s'.Idle t := by
  induction hWork : s.work generalizing s with
  | zero =>
      refine ⟨[], s, nofun, Nat.le_refl 0, rfl, ?_⟩
      intro t
      by_contra hBusy
      rcases hKept with ⟨g, hKept⟩
      have hLess := hKept.work_proceed (b := b) hBusy
      omega
  | succ n ih =>
      by_cases hAll : ∀ t, s.Idle t
      · exact ⟨[], s, nofun, Nat.zero_le _, rfl, hAll⟩
      · push Not at hAll
        rcases hAll with ⟨t, hBusy⟩
        rcases hKept with ⟨g, hKept⟩
        have hLess := hKept.work_proceed (b := b) hBusy
        have hNext :
            (sharedObjects b Thread).step s (.proceed t) =
              some (s.proceed b t) :=
          if_pos hBusy
        rcases ih (s := s.proceed b t) hKept.proceed (by omega)
          with ⟨rest, s', hOwn, hLength, hExec, hIdle⟩
        refine ⟨.proceed t :: rest, s', ?_, ?_, ?_, hIdle⟩
        · intro l hl
          rcases List.mem_cons.mp hl with rfl | hl
          · rfl
          · exact hOwn l hl
        · rw [List.length_cons]
          omega
        · simp only [TransitionSystem.exec, hNext]
          exact hExec

/-
  Calls come to an end: in a run from the beginning there are
  at most as many steps inside of calls as its steps paid for.
  In every state they can go on until no call is under way, by
  at most as many steps as there is work, without a step of
  another kind.
-/
theorem releases_end
    (b : CountBranch)
    (s : SharedObjects Thread)
    (ls : List (SharedStep Thread))
    (hRoomy :
      (sharedObjects b Thread).ExecMeets Roomy initial ls)
    (hExec :
      (sharedObjects b Thread).exec initial ls = some s) :
    ls.countP SharedStep.isProceed ≤
        (ls.map SharedStep.price).sum ∧
      ∃ rest s',
        (∀ l ∈ rest, l.isProceed = true) ∧
          rest.length ≤ s.work ∧
            (sharedObjects b Thread).exec s rest = some s' ∧
              ∀ t, s'.Idle t := by
  constructor
  · have hPaid :=
      TransitionSystem.countP_add_rank_le
        (fun s : SharedObjects Thread => ∃ g, s.Kept g [])
        work SharedStep.isProceed SharedStep.price ?_
        ⟨_, kept_initial⟩ hRoomy hExec
    · rw [work_initial] at hPaid
      omega
    · rintro s l s' ⟨g, hKept⟩ hRoom hStep
      rcases step_inv hStep with ⟨hEnabled, rfl⟩
      exact
        ⟨hKept.next hEnabled hRoom,
          hKept.work_next hEnabled hRoom⟩
  · apply winds_down
    apply kept_of_reachable
    exact
      TransitionSystem.reachableWhere_of_exec (.init rfl) hRoomy
        hExec

/- A move into the pool, and the pop. -/
theorem releases_end_of_move :
    ∃ s,
      (sharedObjects .atomics (Fin 2)).exec initial
          [.objectNew 0 [] true, .autoreleaseMove 0 ⟨0⟩ true,
            .proceed 0, .proceed 0,
            .autoreleasePoolPop 0] = some s ∧
        ∃ rest s',
          (∀ l ∈ rest, l.isProceed = true) ∧
            rest.length ≤ s.work ∧
              (sharedObjects .atomics (Fin 2)).exec s rest =
                  some s' ∧
                ∀ t, s'.Idle t := by
  have hExec :
      (sharedObjects .atomics (Fin 2)).exec initial
          [.objectNew 0 [] true, .autoreleaseMove 0 ⟨0⟩ true,
            .proceed 0, .proceed 0,
            .autoreleasePoolPop 0] = some _ :=
    rfl
  refine ⟨_, hExec, ?_⟩
  exact (releases_end _ _ _ (by decide) hExec).2

end SharedObjects

end KDoth
