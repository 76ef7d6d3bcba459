import KDoth.Threads.Dispatch

/-
  The references to each task: its post has one until it is
  through with the task, and the list or a worker has the
  other.

  Key definitions include:
    * `KWorkerPool.TaskMoves`
    * `KWorkerPool.Referred`
    * `KWorkerPool.Counted`

  Key theorems include:
    * `KWorkerPool.task_of_next`
    * `KWorkerPool.Counted.next`
-/

------------------------------------------------------------
-- What Each Step Does to the Tasks
------------------------------------------------------------

namespace KDoth

namespace PostPhase

/- The references to its task that a post still has. -/
def refs : PostPhase → Nat
| prepared => 1
| locked => 1
| appended => 1
| _ => 0

/- The task is made and not in the list yet. -/
def Posting (p : PostPhase) : Prop :=
  p = .prepared ∨ p = .locked

variable {p : PostPhase}

theorem Accepted.not_posting
    (hAccepted : p.Accepted) :
    ¬ p.Posting := by
  rintro (rfl | rfl)
  · rcases hAccepted with h | h | h <;> cases h
  · rcases hAccepted with h | h | h <;> cases h

theorem Accepted.ne_idle
    (hAccepted : p.Accepted) :
    p ≠ .idle := by
  rintro rfl
  rcases hAccepted with h | h | h <;> cases h

theorem Posting.ne_idle
    (hPosting : p.Posting) :
    p ≠ .idle := by
  rintro rfl
  rcases hPosting with h | h <;> cases h

end PostPhase

namespace KWorkerPool

variable {W : Nat}
variable {s : KWorkerPool W}
variable {l : PoolStep W}

/- What can happen to the tasks and to their user data. -/
inductive TaskMoves
    (s : KWorkerPool W)
    (l : PoolStep W) : Prop
| same
    (hAppend : ∀ t, l ≠ .postAppend t)
    (hClear : ∀ w t, l ≠ .workerReleaseUserData w t)
    (hDestroy : l ≠ .destroy)
    (hRefs :
      ∀ t, ((s.next l).posts t).refs = (s.posts t).refs)
    (hTask : (s.next l).task = s.task)
    (hRetained : (s.next l).retained = s.retained)
    (hReleased : (s.next l).released = s.released)
    (hNext : (s.next l).nextTask = s.nextTask)
    (hGiven : (s.next l).given = s.given)
| begins {o : Option UserData}
    (hStep : l = .postBegin o)
| appends {t : Nat}
    (hStep : l = .postAppend t)
| releases {t : Nat}
    (hStep :
      l = .postReleaseTask t ∨ ∃ w, l = .workerReleaseTask w t)
    (hTask :
      (s.next l).task =
        Function.update s.task t (s.task t).release)
    (hRetained : (s.next l).retained = s.retained)
    (hReleased :
      (s.next l).released =
        s.released ++ (s.task t).lastRelease t)
    (hNext : (s.next l).nextTask = s.nextTask)
    (hGiven : (s.next l).given = s.given)
| clears {w : Fin W} {t : Nat}
    (hStep : l = .workerReleaseUserData w t)
    (hTask :
      (s.next l).task =
        Function.update s.task t
          { s.task t with task := false, userData := none })
    (hRetained : (s.next l).retained = s.retained)
    (hReleased :
      (s.next l).released =
        s.released ++
          (s.task t).userData.toList.map (fun o => (t, o)))
    (hNext : (s.next l).nextTask = s.nextTask)
    (hGiven : (s.next l).given = s.given)
| destroys
    (hStep : l = .destroy)

/- A step of a post that keeps its references. -/
theorem refs_update
    {t : Nat}
    {p : PostPhase}
    (hRefs : p.refs = (s.posts t).refs)
    (u : Nat) :
    (Function.update s.posts t p u).refs =
      (s.posts u).refs := by
  rcases update_cases s.posts t p u with hSame | ⟨rfl, hNew⟩
  · rw [hSame]
  · rw [hNew, hRefs]

theorem task_of_next
    (hEnabled : s.Enabled l) :
    s.TaskMoves l := by
  cases l with
  | postBegin o => exact .begins rfl
  | postAppend t => exact .appends rfl
  | postReleaseTask t =>
      exact .releases (.inl rfl) rfl rfl rfl rfl rfl
  | workerReleaseTask w t =>
      exact .releases (.inr ⟨w, rfl⟩) rfl rfl rfl rfl rfl
  | destroy => exact .destroys rfl
  | postLock t =>
      refine
        .same (by simp) (by simp) (by simp) ?_ rfl rfl rfl rfl
          rfl
      exact refs_update (by rw [hEnabled.1]; rfl)
  | postNotify t woken =>
      refine
        .same (by simp) (by simp) (by simp) ?_ rfl rfl rfl rfl
          rfl
      exact refs_update (s := s) (by rw [hEnabled.1]; rfl)
  | workerReleaseUserData w t =>
      rcases s.next_workerReleaseUserData w t with
        ⟨p, calls, n, d, hEq⟩
      refine .clears rfl ?_ ?_ ?_ ?_ ?_ <;>
        rw [hEq] <;> rfl
  | release actor =>
      rcases s.next_release actor with
        ⟨calls, n, d, hEq⟩
      refine
        .same (by simp) (by simp) (by simp) (fun _ => ?_) ?_ ?_
            ?_ ?_ ?_ <;>
        rw [hEq]
  | workerEnter w =>
      rcases s.next_workerEnter w with
        ⟨workers, tasks, d, hEq⟩
      refine
        .same (by simp) (by simp) (by simp) (fun _ => ?_) ?_ ?_
            ?_ ?_ ?_ <;>
        rw [hEq]
  | workerRecheck w =>
      rcases s.next_workerRecheck w with
        ⟨workers, tasks, d, hEq⟩
      refine
        .same (by simp) (by simp) (by simp) (fun _ => ?_) ?_ ?_
            ?_ ?_ ?_ <;>
        rw [hEq]
  | _ =>
      exact
        .same (by simp) (by simp) (by simp) (fun _ => rfl) rfl
          rfl rfl rfl rfl

end KWorkerPool

end KDoth

------------------------------------------------------------
-- References to Tasks
------------------------------------------------------------

namespace KDoth

namespace KWorkerPool

variable {W : Nat}
variable {s : KWorkerPool W}
variable {l : PoolStep W}

/- The list or a worker has the list's reference to a task. -/
def Referred (s : KWorkerPool W) (t : Nat) : Prop :=
  t ∈ s.tasks ∨ ∃ w, (s.phase w).Holds t

/- The count of a task is that of its references. -/
structure Counted (s : KWorkerPool W) : Prop where
  posting :
    ∀ t,
      s.posts t = .prepared ∨ s.posts t = .locked →
        (s.task t).refCount = 1
  referred :
    ∀ t,
      s.Referred t →
        (s.task t).refCount = 1 + (s.posts t).refs

theorem referred_of_next
    (hEnabled : s.Enabled l)
    {t : Nat}
    (hReferred : (s.next l).Referred t) :
    s.Referred t ∨ l = .postAppend t := by
  rcases hReferred with hMem | ⟨w, hPending | hDone⟩
  · cases queue_of_next (s := s) (l := l) with
    | same _ _ hTasks _ _ _ =>
        rw [hTasks] at hMem
        exact .inl (.inl hMem)
    | @appends u hStep hTasks _ _ _ =>
        rw [hTasks] at hMem
        rcases List.mem_append.mp hMem with hOld | hNew
        · exact .inl (.inl hOld)
        · rw [List.mem_singleton.mp hNew]
          exact .inr hStep
    | takes _ hBefore hTasks _ _ _ _ =>
        rw [hTasks] at hMem
        left
        left
        rw [hBefore]
        exact List.mem_cons_of_mem _ hMem
    | destroys _ hTasks _ _ _ =>
        rw [hTasks] at hMem
        cases hMem
  · rcases pending_of_next hEnabled hPending with
      hBefore | ⟨rest, _, _, hTasks⟩
    · exact .inl (.inr ⟨w, .inl hBefore⟩)
    · left
      left
      rw [hTasks]
      exact List.mem_cons_self
  · rcases done_of_next hEnabled hDone with
      hBefore | ⟨_, hRunning⟩
    · exact .inl (.inr ⟨w, .inr hBefore⟩)
    · left
      right
      refine ⟨w, .inl ?_⟩
      rw [hRunning]
      rfl

/- A task that is referred to was accepted. -/
theorem Placed.accepted_of_referred
    (hPlaced : s.Placed)
    {t : Nat}
    (hReferred : s.Referred t) :
    (s.posts t).Accepted := by
  rw [← hPlaced.queued.posts t]
  rcases hReferred with hMem | ⟨w, hHolds⟩
  · exact hPlaced.queued.mem_accepted hMem
  · exact
      hPlaced.queued.dequeued_accepted
        (hPlaced.dispatched.holds w t hHolds)

/- A worker that is done with its task is the only holder. -/
theorem Placed.not_referred_of_released
    (hPlaced : s.Placed)
    {w : Fin W}
    {t : Nat}
    (hEnabled : s.Enabled (.workerReleaseTask w t)) :
    ¬ (s.next (.workerReleaseTask w t)).Referred t := by
  have hBefore : (t, w) ∈ s.dequeued := by
    apply hPlaced.dispatched.holds w t
    right
    rw [hEnabled.1]
    rfl
  rintro (hMem | ⟨v, hHolds⟩)
  · exact hPlaced.queued.not_dequeued (.inl hMem) w hBefore
  · have hPlaced' := hPlaced.next hEnabled
    have hSame : v = w :=
      hPlaced'.queued.worker_unique
        (hPlaced'.dispatched.holds v t hHolds)
        (dequeued_subset hBefore)
    subst hSame
    have hPhase :
        (s.next (.workerReleaseTask v t)).phase v =
          if (s.workers v).isRunning = true then .loop
          else .ended := by
      change (KWorkerPool.setPhase _ v _).phase v = _
      rw [phase_setPhase, if_pos rfl]
    rw [hPhase] at hHolds
    split at hHolds <;> rcases hHolds with hBad | hBad <;>
      cases hBad

theorem release_refCount
    (task : KWorkerPoolTask) :
    task.release.refCount = task.refCount - 1 := by
  unfold KWorkerPoolTask.release
  by_cases hLast : task.refCount = 1
  · rw [if_pos hLast, hLast]
  · rw [if_neg hLast]

/- A post that has begun does not lose its only reference. -/
theorem Counted.posting_next
    (hCounted : s.Counted)
    (hPlaced : s.Placed)
    (hEnabled : s.Enabled l)
    {t : Nat}
    (hBefore : s.posts t = .prepared ∨ s.posts t = .locked)
    (hAppend : l ≠ .postAppend t) :
    ((s.next l).task t).refCount = 1 := by
  have hCount := hCounted.posting t hBefore
  have hNotReferred : ¬ s.Referred t := by
    intro hReferred
    have hAccepted := hPlaced.accepted_of_referred hReferred
    exact hAccepted.not_posting hBefore
  cases task_of_next hEnabled with
  | same _ _ _ _ hTask _ _ _ _ =>
      rw [hTask]
      exact hCount
  | @begins o hStep =>
      subst hStep
      have hNe : t ≠ s.nextTask := by
        intro hEq
        have hIdle := hPlaced.fresh.posts t (le_of_eq hEq.symm)
        exact PostPhase.Posting.ne_idle hBefore hIdle
      have hTask :
          (s.next (.postBegin o)).task t = s.task t :=
        Function.update_of_ne hNe ..
      rw [hTask]
      exact hCount
  | @appends u hStep =>
      subst hStep
      have hNe : t ≠ u := by
        intro hEq
        exact hAppend (by rw [hEq])
      have hTask :
          (s.next (.postAppend u)).task t = s.task t :=
        Function.update_of_ne hNe ..
      rw [hTask]
      exact hCount
  | @releases u hStep hTask _ _ _ _ =>
      have hNe : t ≠ u := by
        intro hEq
        subst hEq
        rcases hStep with rfl | ⟨w, rfl⟩
        · have hAccepted : (s.posts t).Accepted :=
            Or.inl hEnabled
          exact hAccepted.not_posting hBefore
        · apply hNotReferred
          right
          refine ⟨w, .inr ?_⟩
          rw [hEnabled.1]
          rfl
      rw [hTask, Function.update_of_ne hNe]
      exact hCount
  | @clears w u _ hTask _ _ _ _ =>
      rw [hTask]
      rcases update_cases s.task u
          { s.task u with task := false, userData := none } t
        with hSame | ⟨rfl, hNew⟩
      · rw [hSame]
        exact hCount
      · rw [hNew]
        exact hCount
  | destroys hStep =>
      subst hStep
      have hTask : (s.next .destroy).task t = s.task t :=
        if_neg (fun hMem => hNotReferred (.inl hMem))
      rw [hTask]
      exact hCount

/- A post that has not appended its task has the only one. -/
theorem Counted.of_posting
    (hCounted : s.Counted)
    (hPlaced : s.Placed)
    (hEnabled : s.Enabled l)
    {t : Nat}
    (hPosting : ((s.next l).posts t).Posting) :
    ((s.next l).task t).refCount = 1 := by
  rcases post_of_next (s := s) (l := l) t with
    hSame | ⟨hSelf, ⟨o, rfl⟩, _⟩ | ⟨rfl, _⟩ | ⟨_, hAfter⟩ |
      ⟨_, hAfter⟩ | ⟨_, hAfter⟩
  · rw [hSame] at hPosting
    apply hCounted.posting_next hPlaced hEnabled hPosting
    intro hStep
    subst hStep
    have hAfter :
        (s.next (.postAppend t)).posts t = .appended :=
      Function.update_self ..
    rw [hSame] at hAfter
    have hAccepted : (s.posts t).Accepted := Or.inl hAfter
    exact hAccepted.not_posting hPosting
  · subst hSelf
    have hTask :
        (s.next (.postBegin o)).task s.nextTask =
          { task := true, userData := o, refCount := 1 } :=
      Function.update_self ..
    rw [hTask]
  · exact
      hCounted.posting_next hPlaced hEnabled
        (.inl hEnabled.1) nofun
  all_goals
    rw [hAfter] at hPosting
    rcases hPosting with hBad | hBad <;> cases hBad

/- A task that is referred to is not the new one. -/
theorem Counted.referred_begin
    (hCounted : s.Counted)
    (hPlaced : s.Placed)
    {t : Nat}
    (hReferred : s.Referred t)
    (o : Option UserData) :
    ((s.next (.postBegin o)).task t).refCount =
      1 + ((s.next (.postBegin o)).posts t).refs := by
  have hAccepted := hPlaced.accepted_of_referred hReferred
  have hNe : t ≠ s.nextTask := by
    intro hEq
    have hIdle := hPlaced.fresh.posts t (le_of_eq hEq.symm)
    exact hAccepted.ne_idle hIdle
  have hTask : (s.next (.postBegin o)).task t = s.task t :=
    Function.update_of_ne hNe ..
  have hPost : (s.next (.postBegin o)).posts t = s.posts t :=
    Function.update_of_ne hNe ..
  rw [hTask, hPost]
  exact hCounted.referred t hReferred

/- The list takes a reference to the appended task. -/
theorem Counted.referred_append
    (hCounted : s.Counted)
    {t u : Nat}
    (hEnabled : s.Enabled (.postAppend u))
    (hReferred : s.Referred t ∨ t = u) :
    ((s.next (.postAppend u)).task t).refCount =
      1 + ((s.next (.postAppend u)).posts t).refs := by
  by_cases hSelf : t = u
  · subst hSelf
    have hTask :
        (s.next (.postAppend t)).task t =
          { s.task t with
            refCount := (s.task t).refCount + 1 } :=
      Function.update_self ..
    have hPost :
        (s.next (.postAppend t)).posts t = .appended :=
      Function.update_self ..
    rw [hTask, hPost, hCounted.posting t (.inr hEnabled)]
    rfl
  · have hTask :
        (s.next (.postAppend u)).task t = s.task t :=
      Function.update_of_ne hSelf ..
    have hPost :
        (s.next (.postAppend u)).posts t = s.posts t :=
      Function.update_of_ne hSelf ..
    rw [hTask, hPost]
    rcases hReferred with hBefore | hEq
    · exact hCounted.referred t hBefore
    · exact absurd hEq hSelf

/- The post gives up its own reference. -/
theorem Counted.referred_postRelease
    (hCounted : s.Counted)
    {t u : Nat}
    (hEnabled : s.Enabled (.postReleaseTask u))
    (hTask :
      (s.next (.postReleaseTask u)).task =
        Function.update s.task u (s.task u).release)
    (hReferred : s.Referred t) :
    ((s.next (.postReleaseTask u)).task t).refCount =
      1 + ((s.next (.postReleaseTask u)).posts t).refs := by
  have hCount := hCounted.referred t hReferred
  by_cases hSelf : t = u
  · subst hSelf
    have hAppended : s.posts t = .appended := hEnabled
    have hPost :
        (s.next (.postReleaseTask t)).posts t = .notifying :=
      Function.update_self ..
    rw [hTask, hPost, Function.update_self, release_refCount,
      hCount, hAppended]
    rfl
  · have hPost :
        (s.next (.postReleaseTask u)).posts t = s.posts t :=
      Function.update_of_ne hSelf ..
    rw [hTask, hPost, Function.update_of_ne hSelf]
    exact hCount

/- Clearing a task keeps its references. -/
theorem Counted.referred_clear
    (hCounted : s.Counted)
    {w : Fin W}
    {t u : Nat}
    (hTask :
      (s.next (.workerReleaseUserData w u)).task =
        Function.update s.task u
          { s.task u with task := false, userData := none })
    (hReferred : s.Referred t) :
    ((s.next (.workerReleaseUserData w u)).task t).refCount =
      1 +
        ((s.next (.workerReleaseUserData w u)).posts
          t).refs := by
  have hCount := hCounted.referred t hReferred
  have hPost :
      (s.next (.workerReleaseUserData w u)).posts t =
        s.posts t := by
    rcases s.next_workerReleaseUserData w u with
      ⟨p, calls, n, d, hEq⟩
    rw [hEq]
    rfl
  rw [hTask, hPost]
  rcases update_cases s.task u
      { s.task u with task := false, userData := none } t with
    hSame | ⟨rfl, hNew⟩
  · rw [hSame]
    exact hCount
  · rw [hNew]
    exact hCount

/- What a worker holds is not in the destroyed list. -/
theorem Counted.referred_destroy
    (hCounted : s.Counted)
    (hPlaced : s.Placed)
    {t : Nat}
    (hReferred : (s.next .destroy).Referred t) :
    ((s.next .destroy).task t).refCount =
      1 + ((s.next .destroy).posts t).refs := by
  rcases hReferred with hMem | ⟨w, hHolds⟩
  · cases hMem
  · have hBefore : (s.phase w).Holds t := hHolds
    have hDequeued := hPlaced.dispatched.holds w t hBefore
    have hTask : (s.next .destroy).task t = s.task t :=
      if_neg
        (fun hMem =>
          hPlaced.queued.not_dequeued (.inl hMem) w hDequeued)
    rw [hTask]
    exact hCounted.referred t (.inr ⟨w, hBefore⟩)

/- Every holder of a task has a reference to it. -/
theorem Counted.of_referred
    (hCounted : s.Counted)
    (hPlaced : s.Placed)
    (hEnabled : s.Enabled l)
    {t : Nat}
    (hReferred : (s.next l).Referred t) :
    ((s.next l).task t).refCount =
      1 + ((s.next l).posts t).refs := by
  have hBefore := referred_of_next hEnabled hReferred
  have hOld :
      l ≠ .postAppend t → s.Referred t := by
    intro hAppend
    rcases hBefore with hBefore | hStep
    · exact hBefore
    · exact absurd hStep hAppend
  cases task_of_next hEnabled with
  | same hAppend _ _ hRefs hTask _ _ _ _ =>
      rw [hTask, hRefs]
      exact hCounted.referred t (hOld (hAppend t))
  | @begins o hStep =>
      subst hStep
      exact hCounted.referred_begin hPlaced (hOld nofun) o
  | @appends u hStep =>
      subst hStep
      apply hCounted.referred_append hEnabled
      rcases hBefore with hBefore | hStep
      · exact .inl hBefore
      · cases hStep
        exact .inr rfl
  | @releases u hStep hTask _ _ _ _ =>
      rcases hStep with rfl | ⟨w, rfl⟩
      · exact
          hCounted.referred_postRelease hEnabled hTask
            (hOld nofun)
      · have hNe : t ≠ u := by
          intro hSelf
          subst hSelf
          exact hPlaced.not_referred_of_released hEnabled hReferred
        rw [hTask, Function.update_of_ne hNe]
        exact hCounted.referred t (hOld nofun)
  | @clears w u hStep hTask _ _ _ _ =>
      subst hStep
      exact hCounted.referred_clear hTask (hOld nofun)
  | destroys hStep =>
      subst hStep
      exact hCounted.referred_destroy hPlaced hReferred

theorem Counted.next
    (hCounted : s.Counted)
    (hPlaced : s.Placed)
    (hEnabled : s.Enabled l) :
    (s.next l).Counted := by
  constructor
  · intro t hPosting
    exact hCounted.of_posting hPlaced hEnabled hPosting
  · intro t hReferred
    exact hCounted.of_referred hPlaced hEnabled hReferred

end KWorkerPool

end KDoth
