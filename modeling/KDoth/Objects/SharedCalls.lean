import KDoth.Objects.SharedCounts

/-
  Every step of the threads that share objects keeps what
  their reference counts add up to.

  Key theorems include:
    * `SharedObjects.Kept.callDeInit`
    * `SharedObjects.Kept.free`
    * `SharedObjects.Kept.proceed`
    * `SharedObjects.Kept.next`
    * `SharedObjects.kept_of_reachable`
-/

------------------------------------------------------------
-- Calls Under Way
------------------------------------------------------------

namespace KDoth

namespace ObjectThread

variable {a : ObjectThread} {o : KObjectRef}
variable {f f' : SharedFrame} {rest : List SharedFrame}

/- What a call gives up when another one takes its place. -/
theorem owns_top
    (a : ObjectThread)
    (o : KObjectRef)
    (rest : List SharedFrame)
    (hClears : f'.clears = f.clears) :
    (a.setFrames (f' :: rest)).owns o + f.left.count o =
      (a.setFrames (f :: rest)).owns o +
        f'.left.count o := by
  have hPooled :
      (a.setFrames (f' :: rest)).pooled =
        (a.setFrames (f :: rest)).pooled := by
    simp only [pooled, clearing, setFrames]
    rw [List.any_cons, List.any_cons, hClears]
  unfold owns
  rw [hPooled]
  simp only [setFrames, pending, List.flatMap_cons,
    List.count_append]
  omega

/- A call that ends has nothing left to release. -/
theorem owns_pop
    (a : ObjectThread)
    (o : KObjectRef)
    (rest : List SharedFrame)
    (hClears : f.clears = false)
    (hLeft : f.left = []) :
    (a.setFrames rest).owns o =
      (a.setFrames (f :: rest)).owns o := by
  simp only [owns, pooled, clearing, pending, setFrames,
    List.any_cons, hClears, Bool.false_or, List.flatMap_cons,
    hLeft, List.nil_append]

/- The pool was empty already when it is cleared. -/
theorem owns_clear
    (a : ObjectThread)
    (o : KObjectRef)
    (rest : List SharedFrame)
    (hClears : f.clears = true)
    (hLeft : f.left = []) :
    { a with pool := [], frames := rest }.owns o =
      (a.setFrames (f :: rest)).owns o := by
  simp only [owns, pooled, clearing, pending, setFrames,
    List.any_cons, hClears, Bool.true_or, List.flatMap_cons,
    hLeft, List.nil_append, Bool.cond_self, cond_true]

/- A pool that is not emptied takes one more reference. -/
theorem pooled_add
    (hClearing : a.clearing = false) :
    { a with pool := a.pool ++ [o] }.pooled =
      a.pooled ++ [o] := by
  have hSame :
      { a with pool := a.pool ++ [o] }.clearing = a.clearing :=
    rfl
  unfold pooled
  rw [hSame, hClearing]
  rfl

/- A field that is not released yet is to be released. -/
theorem mem_pending_of_unreleased
    (hField : o ∈ a.unreleased) :
    o ∈ a.pending := by
  unfold unreleased at hField
  split at hField
  · rename_i left x rest hFrames
    rw [pending, hFrames, List.flatMap_cons]
    exact List.mem_append_left _ hField
  · cases hField

/- The loop that empties the pool has all of it to release. -/
theorem owns_drain
    (hClearing : a.clearing = false) :
    (a.setFrames
        ({ left := a.pool, ending := .clear } ::
          a.frames)).owns o =
      a.owns o := by
  have hAll :
      (a.setFrames
          ({ left := a.pool, ending := .clear } ::
            a.frames)).pooled = [] := rfl
  unfold owns
  rw [hAll, pooled, hClearing]
  simp only [pending, setFrames, List.flatMap_cons,
    List.count_append, List.count_nil, cond_false]
  omega

end ObjectThread

namespace SharedObjects

variable {Thread : Type} [Fintype Thread] [DecidableEq Thread]
variable {s : SharedObjects Thread} {o x : KObjectRef}
variable {t : Thread}

variable {f : SharedFrame} {rest : List SharedFrame}

omit [Fintype Thread] [DecidableEq Thread] in
/- A thread with the calls that it has. -/
theorem threads_eq
    (hFrames : (s.threads t).frames = f :: rest) :
    s.threads t = (s.threads t).setFrames (f :: rest) := by
  unfold ObjectThread.setFrames
  rw [← hFrames]

/- How the calls of deinitializers change with the frames. -/
theorem uncalled_setFrames
    (frames : List SharedFrame) :
    (s.setFrames t frames).uncalled x +
        (s.threads t).uncalled x =
      s.uncalled x +
        ((s.threads t).setFrames frames).uncalled x :=
  total_update (ObjectThread.uncalled x) s.threads t _

theorem called_setFrames
    (frames : List SharedFrame) :
    (s.setFrames t frames).called x +
        (s.threads t).called x =
      s.called x +
        ((s.threads t).setFrames frames).called x :=
  total_update (ObjectThread.called x) s.threads t _

/- The same for a thread with an innermost call. -/
theorem uncalled_rest
    (hFrames : (s.threads t).frames = f :: rest) :
    (s.setFrames t rest).uncalled x + (f.uncalled x).toNat =
      s.uncalled x := by
  have hAll := uncalled_setFrames (s := s) (t := t) (x := x) rest
  have hOld : (s.threads t).uncalled x = _ :=
    congrArg (ObjectThread.uncalled x) (threads_eq hFrames)
  rw [ObjectThread.uncalled_push] at hOld
  omega

theorem called_rest
    (hFrames : (s.threads t).frames = f :: rest) :
    (s.setFrames t rest).called x + (f.called x).toNat =
      s.called x := by
  have hAll := called_setFrames (s := s) (t := t) (x := x) rest
  have hOld : (s.threads t).called x = _ :=
    congrArg (ObjectThread.called x) (threads_eq hFrames)
  rw [ObjectThread.called_push] at hOld
  omega

/- One call takes the place of the innermost one. -/
theorem uncalled_replace
    (hFrames : (s.threads t).frames = f :: rest)
    (f' : SharedFrame) :
    (s.setFrames t (f' :: rest)).uncalled x +
        (f.uncalled x).toNat =
      s.uncalled x + (f'.uncalled x).toNat := by
  have hAll :=
    uncalled_setFrames (s := s) (t := t) (x := x) (f' :: rest)
  have hOld : (s.threads t).uncalled x = _ :=
    congrArg (ObjectThread.uncalled x) (threads_eq hFrames)
  rw [ObjectThread.uncalled_push] at hAll hOld
  omega

theorem called_replace
    (hFrames : (s.threads t).frames = f :: rest)
    (f' : SharedFrame) :
    (s.setFrames t (f' :: rest)).called x +
        (f.called x).toNat =
      s.called x + (f'.called x).toNat := by
  have hAll :=
    called_setFrames (s := s) (t := t) (x := x) (f' :: rest)
  have hOld : (s.threads t).called x = _ :=
    congrArg (ObjectThread.called x) (threads_eq hFrames)
  rw [ObjectThread.called_push] at hAll hOld
  omega

omit [Fintype Thread] in
/- The end of a call that frees an object. -/
theorem finish_free
    {called : Bool}
    (hAccess : s.access o = s) :
    s.finish t (.free o called) rest =
      { (s.put o none).setFrames t rest with
        frees := s.frees ++ [o] } := by
  change
    { ((s.access o).put o none).setFrames t rest with
      frees := s.frees ++ [o] } = _
  rw [hAccess]

namespace Kept

variable {g : RefGraph KObjectRef}
variable {pending left : List KObjectRef}

/- A call takes the next reference that it has to release. -/
theorem takeNext
    {ending : SharedEnding}
    (hKept : s.Kept g pending)
    (hFrames :
      (s.threads t).frames =
        { left := x :: left, ending := ending } :: rest) :
    (s.setFrames t
        ({ left := left, ending := ending } :: rest)).Kept g
      (x :: pending) := by
  apply hKept.setThread
  · intro y
    have hClears :
        SharedFrame.clears { left := left, ending := ending } =
          SharedFrame.clears
            { left := x :: left, ending := ending } := rfl
    have hTop :=
      ObjectThread.owns_top (s.threads t) y rest hClears
    rw [← threads_eq hFrames] at hTop
    simp only [List.count_cons] at hTop ⊢
    omega
  · intro y
    conv_rhs => rw [threads_eq hFrames]
    rw [ObjectThread.uncalled_push, ObjectThread.uncalled_push]
    rfl
  · intro y
    conv_rhs => rw [threads_eq hFrames]
    rw [ObjectThread.called_push, ObjectThread.called_push]
    rfl

/- The loop over the pool begins. -/
theorem drain
    (hKept : s.Kept g pending)
    (hClearing : (s.threads t).clearing = false) :
    (s.autoreleasePoolPop t).Kept g pending := by
  apply hKept.setThread
  · intro y
    rw [ObjectThread.owns_drain hClearing]
  · intro y
    rw [ObjectThread.uncalled_push]
    rfl
  · intro y
    rw [ObjectThread.called_push]
    rfl

/- A call with nothing left to release and to free ends. -/
theorem endMove
    (hKept : s.Kept g pending)
    (hFrames :
      (s.threads t).frames =
        { left := [], ending := .done } :: rest) :
    (s.setFrames t rest).Kept g pending := by
  apply hKept.setThread
  · intro y
    have hPop :=
      ObjectThread.owns_pop (s.threads t) y rest
        (f := { left := [], ending := .done }) rfl rfl
    rw [← threads_eq hFrames] at hPop
    exact congrArg (fun n => n + pending.count y) hPop
  · intro y
    conv_rhs => rw [threads_eq hFrames]
    rw [ObjectThread.uncalled_push]
    rfl
  · intro y
    conv_rhs => rw [threads_eq hFrames]
    rw [ObjectThread.called_push]
    rfl

/- The pool was released and is empty. -/
theorem clear
    (hKept : s.Kept g pending)
    (hFrames :
      (s.threads t).frames =
        { left := [], ending := .clear } :: rest) :
    (s.setThread t
        { s.threads t with
          pool := [], frames := rest }).Kept g pending := by
  apply hKept.setThread
  · intro y
    have hClear :=
      ObjectThread.owns_clear (s.threads t) y rest
        (f := { left := [], ending := .clear }) rfl rfl
    rw [← threads_eq hFrames] at hClear
    exact congrArg (fun n => n + pending.count y) hClear
  · intro y
    conv_rhs => rw [threads_eq hFrames]
    rw [ObjectThread.uncalled_push]
    rfl
  · intro y
    conv_rhs => rw [threads_eq hFrames]
    rw [ObjectThread.called_push]
    rfl

/- A frame of an object is one of its calls. -/
theorem le_uncalled
    (hFrames : (s.threads t).frames = f :: rest) :
    (f.uncalled o).toNat ≤ s.uncalled o := by
  have hRest := uncalled_rest (x := o) hFrames
  omega

theorem le_called
    (hFrames : (s.threads t).frames = f :: rest) :
    (f.called o).toNat ≤ s.called o := by
  have hRest := called_rest (x := o) hFrames
  omega

/- The object of a call is not alive and not freed. -/
theorem dying_of_frame
    {called : Bool}
    (hKept : s.Kept g pending)
    (hFrames :
      (s.threads t).frames =
        { left := left, ending := .free o called } :: rest) :
    0 < s.dying o := by
  have hCalls := hKept.calls o
  cases called with
  | false =>
      have hLe := le_uncalled (o := o) hFrames
      rw [SharedFrame.toNat_uncalled_free, if_pos rfl] at hLe
      omega
  | true =>
      have hLe := le_called (o := o) hFrames
      rw [SharedFrame.toNat_called_called, if_pos rfl] at hLe
      omega

theorem access_of_frame
    {called : Bool}
    (hKept : s.Kept g pending)
    (hFrames :
      (s.threads t).frames =
        { left := left, ending := .free o called } :: rest) :
    s.access o = s := by
  have hDying := hKept.dying_of_frame hFrames
  exact access_of_present (by omega)

/- The deinitializer of an object is called. -/
theorem callDeInit
    (hKept : s.Kept g [])
    (hFrames :
      (s.threads t).frames =
        { left := left, ending := .free o false } :: rest) :
    (s.callDeInit t o left rest).Kept g [] := by
  have hLe := le_uncalled (o := o) hFrames
  rw [SharedFrame.toNat_uncalled_free, if_pos rfl] at hLe
  have hSelf := hKept.calls o
  have hEq :
      s.callDeInit t o left rest =
        { s.setFrames t
            ({ left := left, ending := .free o true } ::
              rest) with
          deInits := s.deInits ++ [o] } := by
    unfold SharedObjects.callDeInit
    rw [hKept.access_of_frame hFrames]
  have hClears :
      SharedFrame.clears
          { left := left, ending := .free o true } =
        SharedFrame.clears
          { left := left, ending := .free o false } := rfl
  have hCounted :
      (s.setFrames t
        ({ left := left, ending := .free o true } ::
          rest)).Counted g [] := by
    apply hKept.toCounted.setThread
    intro x
    have hTop :=
      ObjectThread.owns_top (s.threads t) x rest hClears
    rw [← threads_eq hFrames] at hTop
    simp only at hTop ⊢
    omega
  have hUncalled :
      ∀ x,
        (s.callDeInit t o left rest).uncalled x +
            (if x = o then 1 else 0) =
          s.uncalled x := by
    intro x
    have hAll :=
      uncalled_replace (x := x) hFrames
        { left := left, ending := .free o true }
    rw [SharedFrame.toNat_uncalled_free,
      SharedFrame.toNat_uncalled_called] at hAll
    rw [hEq]
    exact hAll
  have hCalled :
      ∀ x,
        (s.callDeInit t o left rest).called x =
          s.called x + (if x = o then 1 else 0) := by
    intro x
    have hAll :=
      called_replace (x := x) hFrames
        { left := left, ending := .free o true }
    rw [SharedFrame.toNat_called_free,
      SharedFrame.toNat_called_called] at hAll
    rw [hEq]
    exact hAll
  refine ⟨?_, ?_, ?_, ?_, ?_⟩
  · rw [hEq]
    exact
      ⟨hCounted.balanced, hCounted.nodes, hCounted.out,
        hCounted.older⟩
  · intro x
    have hCalls := hKept.calls x
    have hBefore := hUncalled x
    rw [hCalled]
    rw [hEq] at hBefore ⊢
    change _ + _ = s.dying x
    omega
  · intro x
    have hDeInits := hKept.deInits x
    have hBefore := hUncalled x
    rw [hEq] at hBefore ⊢
    change (s.deInits ++ [o]).count x + _ + s.alive x = s.made x
    rw [count_append_singleton]
    omega
  · rw [hEq]
    exact hKept.frees
  · rw [hEq]
    exact hKept.stale

/- The object of a deinitializer that ended is freed. -/
theorem free
    (hKept : s.Kept g [])
    (hFrames :
      (s.threads t).frames =
        { left := [], ending := .free o true } :: rest) :
    (s.finish t (.free o true) rest).Kept g [] := by
  have hLe := le_called (o := o) hFrames
  rw [SharedFrame.toNat_called_called, if_pos rfl] at hLe
  have hSelf := hKept.calls o
  have hFreed := hKept.frees o
  rcases exists_of_present (s := s) (o := o) (by omega) with
    ⟨object, hObject⟩
  have hOne := alive_add_dying hObject
  have hAccess := hKept.access_of_frame hFrames
  have hEq :
      s.finish t (.free o true) rest =
        { (s.put o none).setFrames t rest with
          frees := s.frees ++ [o] } :=
    finish_free hAccess
  have hNone : (s.put o none).objects o = none :=
    Function.update_self _ _ _
  have hAliveSelf : (s.put o none).alive o = 0 := by
    simp [alive, hNone]
  have hDyingSelf : (s.put o none).dying o = 0 := by
    simp [dying, hNone]
  have hObjects :
      ∀ x y,
        (s.put o none).objects x = some y →
          s.objects x = some y := by
    intro x y hy
    by_cases hSame : x = o
    · rw [hSame, hNone] at hy
      cases hy
    · simp only [put, Function.update_of_ne hSame] at hy
      exact hy
  have hPut : (s.put o none).Counted g [] := by
    refine ⟨?_, ?_, ?_, ?_⟩
    · apply hKept.balanced.congr
      intro x hx
      apply count_put_of_ne
      intro hSame
      have hAlive := hKept.alive_of_node hx
      rw [hSame] at hAlive
      omega
    · intro x
      by_cases hSame : x = o
      · rw [hSame, hKept.nodes o, hAliveSelf]
        omega
      · rw [alive_put_of_ne hSame]
        exact hKept.nodes x
    · exact fun x y hy => hKept.out x y (hObjects x y hy)
    · exact fun x y hy => hKept.older x y (hObjects x y hy)
  have hCounted :
      ((s.put o none).setFrames t rest).Counted g [] := by
    apply hPut.setThread
    intro x
    have hPop :=
      ObjectThread.owns_pop (s.threads t) x rest
        (f := { left := [], ending := .free o true }) rfl rfl
    rw [← threads_eq hFrames] at hPop
    exact congrArg (fun n => n + List.count x []) hPop
  have hUncalled :
      ∀ x,
        (s.finish t (.free o true) rest).uncalled x =
          s.uncalled x := by
    intro x
    have hAll := uncalled_rest (x := x) hFrames
    rw [SharedFrame.toNat_uncalled_called] at hAll
    rw [hEq]
    exact hAll
  have hCalled :
      ∀ x,
        (s.finish t (.free o true) rest).called x +
            (if x = o then 1 else 0) =
          s.called x := by
    intro x
    have hAll := called_rest (x := x) hFrames
    rw [SharedFrame.toNat_called_called] at hAll
    rw [hEq]
    exact hAll
  refine ⟨?_, ?_, ?_, ?_, ?_⟩
  · rw [hEq]
    exact
      ⟨hCounted.balanced, hCounted.nodes, hCounted.out,
        hCounted.older⟩
  · intro x
    have hCalls := hKept.calls x
    have hBefore := hCalled x
    rw [hUncalled]
    rw [hEq] at hBefore ⊢
    change _ + _ = (s.put o none).dying x
    by_cases hSame : x = o
    · rw [if_pos hSame] at hBefore
      rw [hSame] at hBefore hCalls ⊢
      omega
    · rw [if_neg hSame] at hBefore
      rw [dying_put_of_ne hSame]
      omega
  · intro x
    have hDeInits := hKept.deInits x
    rw [hUncalled, hEq]
    change s.deInits.count x + _ + (s.put o none).alive x =
      s.made x
    by_cases hSame : x = o
    · rw [hSame] at hDeInits ⊢
      omega
    · rw [alive_put_of_ne hSame]
      exact hDeInits
  · intro x
    have hFrees := hKept.frees x
    rw [hEq]
    change (s.frees ++ [o]).count x + (s.put o none).alive x +
      (s.put o none).dying x = s.made x
    rw [count_append_singleton]
    by_cases hSame : x = o
    · rw [if_pos hSame]
      rw [hSame] at hFrees ⊢
      omega
    · rw [if_neg hSame, alive_put_of_ne hSame,
        dying_put_of_ne hSame]
      exact hFrees
  · rw [hEq]
    exact hKept.stale

end Kept

end SharedObjects

end KDoth

------------------------------------------------------------
-- Every Step
------------------------------------------------------------

namespace KDoth

namespace SharedObjects

variable {Thread : Type} [Fintype Thread] [DecidableEq Thread]
variable {s s' : SharedObjects Thread} {o : KObjectRef}
variable {t : Thread} {b : CountBranch}

omit [Fintype Thread] [DecidableEq Thread] in
theorem threads_retain :
    (s.retain b o).threads = s.threads := by
  unfold retain
  split <;> rfl

omit [Fintype Thread] in
/- An addition to the pool is not held by the code. -/
theorem held_autoreleasePoolAddObject
    {granted : Bool} :
    ((s.autoreleasePoolAddObject b t o granted).threads t).held =
      (s.threads t).held := by
  cases granted with
  | false => rfl
  | true =>
      simp only [autoreleasePoolAddObject, pooled, setThread,
        threads_retain, Function.update_self, if_true]

namespace Kept

variable {g : RefGraph KObjectRef}
variable {pending : List KObjectRef}

/- A call of the thread goes on. -/
theorem proceed
    (hKept : s.Kept g []) :
    ∃ g', (s.proceed b t).Kept g' [] := by
  cases hFrames : (s.threads t).frames with
  | nil =>
      refine ⟨g, ?_⟩
      simp only [SharedObjects.proceed, hFrames]
      exact hKept
  | cons f rest =>
      rcases f with ⟨left, ending⟩
      cases ending with
      | free o called =>
          cases called with
          | false =>
              refine ⟨g, ?_⟩
              simp only [SharedObjects.proceed, hFrames]
              exact hKept.callDeInit hFrames
          | true =>
              cases left with
              | nil =>
                  refine ⟨g, ?_⟩
                  simp only [SharedObjects.proceed, hFrames]
                  exact hKept.free hFrames
              | cons x left =>
                  have hAccess := hKept.access_of_frame hFrames
                  simp only [SharedObjects.proceed, hFrames,
                    hAccess]
                  exact (hKept.takeNext hFrames).release
      | clear =>
          cases left with
          | nil =>
              refine ⟨g, ?_⟩
              simp only [SharedObjects.proceed, hFrames]
              exact hKept.clear hFrames
          | cons x left =>
              simp only [SharedObjects.proceed, hFrames]
              exact (hKept.takeNext hFrames).release
      | done =>
          cases left with
          | nil =>
              refine ⟨g, ?_⟩
              simp only [SharedObjects.proceed, hFrames]
              exact hKept.endMove hFrames
          | cons x left =>
              simp only [SharedObjects.proceed, hFrames]
              exact (hKept.takeNext hFrames).release

omit [DecidableEq Thread] in
/- A thread may use only objects that are alive. -/
theorem alive_of_uses
    (hKept : s.Kept g pending)
    (hUses : s.Uses t o) :
    s.alive o = 1 := by
  apply hKept.alive_of_owned (t := t)
  unfold ObjectThread.owns
  rcases hUses with hHeld | hPool | hField
  · omega
  · have hCount := List.count_pos_iff.mpr hPool
    omega
  · have hPending :=
      ObjectThread.mem_pending_of_unreleased hField
    have hCount := List.count_pos_iff.mpr hPending
    omega

omit [DecidableEq Thread] in
/- The object and its field are there to be retained. -/
theorem field_of_enabled
    {x : KObjectRef}
    (hKept : s.Kept g pending)
    (hEnabled : s.Enabled (.retainField t o x)) :
    s.alive x = 1 ∧ s.access o = s := by
  rcases hEnabled with ⟨_, hUses, hField⟩
  have hAlive := hKept.alive_of_uses hUses
  rcases exists_of_present (s := s) (o := o) (by omega) with
    ⟨object, hObject⟩
  have hMem : x ∈ object.fields := by
    rcases hField with hNone | hMem
    · rw [hObject] at hNone
      cases hNone
    · simpa [fieldsOf, hObject] using hMem
  exact
    ⟨hKept.alive_of_field hAlive hObject hMem,
      access_of_present (by omega)⟩

/- A pool that is not emptied takes a pending reference. -/
theorem pool
    (hKept : s.Kept g (o :: pending))
    (hClearing : (s.threads t).clearing = false) :
    (s.pooled t o).Kept g pending := by
  apply hKept.setThread
  · intro x
    have hPooled := ObjectThread.pooled_add (o := o) hClearing
    unfold ObjectThread.owns
    rw [hPooled]
    simp only [ObjectThread.pending, List.count_append,
      List.count_cons, List.count_nil]
    omega
  · intro x
    rfl
  · intro x
    rfl

/- An addition to the pool, granted or not. -/
theorem autoreleasePoolAddObject
    {granted : Bool}
    (hKept : s.Kept g pending)
    (hClearing : (s.threads t).clearing = false)
    (hAlive : s.alive o = 1)
    (hRoom : s.Room o) :
    (s.autoreleasePoolAddObject b t o granted).Kept g
      pending := by
  cases granted with
  | false => exact hKept
  | true =>
      apply (hKept.retain hAlive hRoom).pool
      rw [threads_retain]
      exact hClearing

/- Every step keeps the counts. -/
theorem next
    {l : SharedStep Thread}
    (hKept : s.Kept g [])
    (hEnabled : s.Enabled l)
    (hRoomy : s.Roomy l) :
    ∃ g', (s.next b l).Kept g' [] := by
  cases l with
  | objectNew t fields granted =>
      cases granted with
      | false => exact ⟨g, hKept⟩
      | true => exact hKept.objectNew hEnabled.2
  | objectRetain t o =>
      have hAlive := hKept.alive_of_uses hEnabled.2
      exact ⟨g, (hKept.retain hAlive hRoomy).gain⟩
  | retainField t o x =>
      rcases hKept.field_of_enabled hEnabled with
        ⟨hAliveField, hAccess⟩
      simp only [SharedObjects.next, hAccess]
      exact ⟨g, (hKept.retain hAliveField hRoomy).gain⟩
  | give t u o =>
      exact ⟨g, (hKept.loseOne hEnabled.2).gain⟩
  | objectRelease t o =>
      exact (hKept.loseOne hEnabled.2).release
  | autoreleasePoolAddObject t o granted =>
      have hAlive := hKept.alive_of_uses hEnabled.2
      exact
        ⟨g,
          hKept.autoreleasePoolAddObject hEnabled.1.2 hAlive
            hRoomy.1⟩
  | autoreleaseMove t o granted =>
      have hAlive := hKept.alive_of_uses (.inl hEnabled.2)
      have hAdded :
          (s.autoreleasePoolAddObject b t o granted).Kept g [] :=
        hKept.autoreleasePoolAddObject hEnabled.1.2 hAlive
          hRoomy.1
      have hLost := hAdded.loseOne (t := t) (o := o) (by
        rw [held_autoreleasePoolAddObject]
        exact hEnabled.2)
      exact ⟨g, Kept.push (f := ⟨[o], .done⟩) hLost rfl⟩
  | autoreleasePoolPop t => exact ⟨g, hKept.drain hEnabled.2⟩
  | proceed t => exact hKept.proceed

end Kept

omit [DecidableEq Thread] in
/- There is nothing to keep in the beginning. -/
theorem kept_initial :
    (initial : SharedObjects Thread).Kept
      { nodes := ∅, out := fun _ => [] } [] := by
  have hOwned :
      ∀ o, (initial : SharedObjects Thread).owned o = 0 := by
    intro o
    exact total_eq_zero_iff.mpr fun _ => rfl
  have hUncalled :
      ∀ o, (initial : SharedObjects Thread).uncalled o = 0 := by
    intro o
    exact total_eq_zero_iff.mpr fun _ => rfl
  have hCalled :
      ∀ o, (initial : SharedObjects Thread).called o = 0 := by
    intro o
    exact total_eq_zero_iff.mpr fun _ => rfl
  refine
    ⟨⟨⟨nofun, nofun, ?_⟩, ?_, nofun, nofun⟩, ?_, ?_, ?_, rfl⟩
  · intro o _
    rw [hOwned]
    rfl
  · intro o
    exact iff_of_false (Finset.notMem_empty o) Nat.zero_ne_one
  · intro o
    rw [hUncalled, hCalled]
    rfl
  · intro o
    rw [hUncalled]
    rfl
  · intro o
    rfl

omit [Fintype Thread] in
theorem step_inv
    {l : SharedStep Thread}
    (hStep : (sharedObjects b Thread).step s l = some s') :
    s.Enabled l ∧ s' = s.next b l := by
  by_cases hEnabled : s.Enabled l
  · simp only [sharedObjects, if_pos hEnabled,
      Option.some.injEq] at hStep
    exact ⟨hEnabled, hStep.symm⟩
  · simp [sharedObjects, if_neg hEnabled] at hStep

/- By induction on the steps. -/
theorem kept_of_reachable
    (hReach : (sharedObjects b Thread).ReachableWhere Roomy s) :
    ∃ g, s.Kept g [] := by
  apply hReach.invariant
  · rintro s rfl
    exact ⟨_, kept_initial⟩
  · rintro s l s' ⟨g, hKept⟩ hRoomy hStep
    rcases step_inv hStep with ⟨hEnabled, rfl⟩
    exact hKept.next hEnabled hRoomy

end SharedObjects

end KDoth
