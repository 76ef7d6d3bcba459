import KDoth.Threads.Steps

/-
  Where the tasks of the pool are: accepted tasks leave the
  list in the order of the posts, each to one worker, which
  executes it once.

  Key definitions include:
    * `KWorkerPool.Closed`
    * `KWorkerPool.Queued`
    * `KWorkerPool.Dispatched`

  Key theorems include:
    * `KWorkerPool.Closed.next`
    * `KWorkerPool.Queued.next`
    * `KWorkerPool.Dispatched.next`
    * `KWorkerPool.Placed.of_reachable`
-/

------------------------------------------------------------
-- After the Last Release
------------------------------------------------------------

namespace KDoth

namespace PostPhase

/- The task has been appended to the list. -/
def Accepted (p : PostPhase) : Prop :=
  p = .appended ∨ p = .notifying ∨ p = .returned

end PostPhase

namespace KWorkerPool

variable {W : Nat}
variable {s : KWorkerPool W}
variable {l : PoolStep W}

/- Without a reference nobody uses the pool from outside. -/
structure Closed (s : KWorkerPool W) : Prop where
  count : s.deInit ≠ none → s.refCount = 0
  posts :
    s.deInit ≠ none →
      ∀ t, s.posts t = .idle ∨ s.posts t = .returned
  destroyed : s.destroyed = true → s.deInit ≠ none

/- A pool in use is not being deinitialized. -/
theorem Closed.none_of_referenced
    (hClosed : s.Closed)
    (hCount : 0 < s.refCount) :
    s.deInit = none := by
  by_contra hSome
  have hZero := hClosed.count hSome
  omega

theorem Closed.none_of_posting
    (hClosed : s.Closed)
    {t : Nat}
    {p : PostPhase}
    (hPhase : s.posts t = p)
    (hIdle : p ≠ .idle)
    (hReturned : p ≠ .returned) :
    s.deInit = none := by
  by_contra hSome
  rcases hClosed.posts hSome t with hBad | hBad
  · exact hIdle (hPhase.symm.trans hBad)
  · exact hReturned (hPhase.symm.trans hBad)

/- A pool that is not being deinitialized is not destroyed. -/
theorem Closed.of_none
    (hClosed : s.Closed)
    (hNone : s.deInit = none) :
    s.destroyed = false := by
  by_contra hDestroyed
  exact
    hClosed.destroyed (by simpa using hDestroyed) hNone

/- What a step keeps while the pool is not deinitialized. -/
theorem Closed.of_open
    (hNone : s.deInit = none)
    (hDestroyed : s.destroyed = false) :
    s.Closed := by
  constructor
  · intro hSome
    exact absurd hNone hSome
  · intro hSome
    exact absurd hNone hSome
  · intro hTrue
    rw [hDestroyed] at hTrue
    cases hTrue

/- The last release happens with no call in progress. -/
theorem Closed.deInitIfLast
    (hFresh : s.Fresh)
    (hNone : s.deInit = none)
    (hDestroyed : s.destroyed = false)
    (hQuiet : s.refCount = 0 → s.Quiet)
    (actor : Option (Fin W)) :
    (s.deInitIfLast actor).Closed := by
  rcases s.deInitIfLast_cases actor with
    ⟨_, hEq⟩ | ⟨hZero, hEq⟩
  · rw [hEq]
    exact .of_open hNone hDestroyed
  · rw [hEq]
    constructor
    · intro _
      exact hZero
    · intro _ t
      by_cases hBegun : t < s.nextTask
      · exact .inr ((hQuiet hZero).1 t hBegun)
      · exact .inl (hFresh.posts t (by omega))
    · intro _ hBad
      cases hBad

theorem Closed.release
    {actor : Option (Fin W)}
    (hClosed : s.Closed)
    (hFresh : s.Fresh)
    (hEnabled : s.Enabled (.release actor)) :
    (s.next (.release actor)).Closed := by
  rcases hEnabled with ⟨hHeld, hQuiet, _⟩
  have hPositive : 0 < s.refCount := by
    unfold refCount
    omega
  have hNone := hClosed.none_of_referenced hPositive
  refine
    Closed.deInitIfLast
      (s := { s with clients := s.clients - 1 })
      ⟨hFresh.posts, hFresh.calls⟩ hNone
      (hClosed.of_none hNone) ?_ actor
  intro hZero
  apply hQuiet
  unfold refCount at hZero ⊢
  dsimp only at hZero
  omega

/- A task's reference to the pool can be the last one. -/
theorem Closed.releaseUserData
    {w : Fin W}
    {t : Nat}
    (hClosed : s.Closed)
    (hFresh : s.Fresh)
    (hEnabled : s.Enabled (.workerReleaseUserData w t)) :
    (s.next (.workerReleaseUserData w t)).Closed := by
  rcases hEnabled with ⟨_, _, hPool⟩
  by_cases hData : (s.task t).userData = some .pool
  · rw [KWorkerPool.next, KWorkerPool.releaseUserData,
      if_pos hData]
    rcases hPool hData with ⟨hPinned, hQuiet⟩
    have hPositive : 0 < s.refCount := by
      unfold refCount
      omega
    have hNone := hClosed.none_of_referenced hPositive
    refine
      Closed.deInitIfLast
        (s :=
          { s.clearTask w t with pinned := s.pinned - 1 })
        ⟨hFresh.posts, hFresh.calls⟩ hNone
        (hClosed.of_none hNone) ?_ (some w)
    intro hZero
    have hLast : s.refCount = 1 := by
      unfold refCount at hZero ⊢
      change s.clients + (s.pinned - 1) = 0 at hZero
      omega
    exact hQuiet hLast
  · rw [KWorkerPool.next, KWorkerPool.releaseUserData,
      if_neg hData]
    exact ⟨hClosed.count, hClosed.posts, hClosed.destroyed⟩

theorem Closed.next
    (hClosed : s.Closed)
    (hFresh : s.Fresh)
    (hEnabled : s.Enabled l) :
    (s.next l).Closed := by
  have hKeep :
      ∀ {s' : KWorkerPool W},
        s'.deInit = s.deInit →
          s'.destroyed = s.destroyed →
            s.deInit = none → s'.Closed := by
    intro s' hDeInit hDestroyed hNone
    exact
      .of_open (hDeInit.trans hNone)
        (hDestroyed.trans (hClosed.of_none hNone))
  cases l with
  | retain =>
      exact hKeep rfl rfl (hClosed.none_of_referenced hEnabled)
  | release actor => exact hClosed.release hFresh hEnabled
  | postBegin o =>
      exact hKeep rfl rfl (hClosed.none_of_referenced hEnabled)
  | postLock t =>
      exact
        hKeep rfl rfl
          (hClosed.none_of_posting hEnabled.1 nofun nofun)
  | postAppend t =>
      exact
        hKeep rfl rfl
          (hClosed.none_of_posting hEnabled nofun nofun)
  | postReleaseTask t =>
      exact
        hKeep rfl rfl
          (hClosed.none_of_posting hEnabled nofun nofun)
  | postNotify t woken =>
      exact
        hKeep rfl rfl
          (hClosed.none_of_posting hEnabled.1 nofun nofun)
  | workerEnter w =>
      rcases s.next_workerEnter w with
        ⟨workers, tasks, d, hEq⟩
      rw [hEq]
      exact ⟨hClosed.count, hClosed.posts, hClosed.destroyed⟩
  | workerRecheck w =>
      rcases s.next_workerRecheck w with
        ⟨workers, tasks, d, hEq⟩
      rw [hEq]
      exact ⟨hClosed.count, hClosed.posts, hClosed.destroyed⟩
  | workerReleaseUserData w t =>
      exact hClosed.releaseUserData hFresh hEnabled
  | destroy =>
      rcases hEnabled with ⟨_, c, _, hSome, _⟩
      constructor
      · exact hClosed.count
      · exact hClosed.posts
      · intro _ hNone
        have hBad : s.deInit = none := hNone
        rw [hBad] at hSome
        cases hSome
  | _ =>
      exact ⟨hClosed.count, hClosed.posts, hClosed.destroyed⟩

end KWorkerPool

end KDoth

------------------------------------------------------------
-- The Order of the List
------------------------------------------------------------

namespace KDoth

namespace KWorkerPool

variable {W : Nat}
variable {s : KWorkerPool W}
variable {l : PoolStep W}

/- Accepted tasks leave the list at its head, in order. -/
structure Queued (s : KWorkerPool W) : Prop where
  order :
    s.accepted = s.dequeued.map Prod.fst ++ s.tasks ++ s.dropped
  dropped : s.destroyed = false → s.dropped = []
  tasks : s.destroyed = true → s.tasks = []
  nodup : s.accepted.Nodup
  posts : ∀ t, t ∈ s.accepted ↔ (s.posts t).Accepted

theorem destroyed_of_next
    (hOther : l ≠ .destroy) :
    (s.next l).destroyed = s.destroyed := by
  cases l with
  | destroy => exact absurd rfl hOther
  | release actor =>
      rcases s.next_release actor with
        ⟨calls, n, d, hEq⟩
      rw [hEq]
  | workerReleaseUserData w t =>
      rcases s.next_workerReleaseUserData w t with
        ⟨p, calls, n, d, hEq⟩
      rw [hEq]
      rfl
  | workerEnter w =>
      rcases s.next_workerEnter w with
        ⟨workers, tasks, d, hEq⟩
      rw [hEq]
  | workerRecheck w =>
      rcases s.next_workerRecheck w with
        ⟨workers, tasks, d, hEq⟩
      rw [hEq]
  | _ => rfl

/- Other steps do not change what has been appended. -/
theorem accepted_of_next
    (hFresh : s.Fresh)
    (hEnabled : s.Enabled l)
    (hOther : ∀ t, l ≠ .postAppend t)
    (t : Nat) :
    ((s.next l).posts t).Accepted ↔ (s.posts t).Accepted := by
  unfold PostPhase.Accepted
  rcases post_of_next (s := s) (l := l) t with
    hSame | ⟨hSelf, _, hAfter⟩ | ⟨rfl, hAfter⟩ | ⟨hStep, _⟩ |
      ⟨rfl, hAfter⟩ | ⟨⟨woken, rfl⟩, hAfter⟩
  · rw [hSame]
  · rw [hAfter, hFresh.posts t (le_of_eq hSelf.symm)]
    simp
  · rw [hAfter, hEnabled.1]
    simp
  · exact absurd hStep (hOther t)
  · have hBefore : s.posts t = .appended := hEnabled
    rw [hAfter, hBefore]
    simp
  · rw [hAfter, hEnabled.1]
    simp

/- A task in the list was accepted. -/
theorem Queued.mem_accepted
    (hQueued : s.Queued)
    {t : Nat}
    (hMem : t ∈ s.tasks) :
    t ∈ s.accepted := by
  rw [hQueued.order]
  simp [hMem]

theorem Queued.dequeued_accepted
    (hQueued : s.Queued)
    {t : Nat}
    {w : Fin W}
    (hMem : (t, w) ∈ s.dequeued) :
    t ∈ s.accepted := by
  rw [hQueued.order]
  have hFirst : t ∈ s.dequeued.map Prod.fst :=
    List.mem_map.mpr ⟨(t, w), hMem, rfl⟩
  simp [hFirst]

/- Every accepted task is in one place. -/
theorem Queued.nodup_places
    (hQueued : s.Queued) :
    (s.dequeued.map Prod.fst ++
      (s.tasks ++ s.dropped)).Nodup := by
  have hNodup := hQueued.nodup
  rw [hQueued.order, List.append_assoc] at hNodup
  exact hNodup

theorem Queued.nodup_tasks
    (hQueued : s.Queued) :
    s.tasks.Nodup := by
  have hPlaces := List.nodup_append.mp hQueued.nodup_places
  exact (List.nodup_append.mp hPlaces.2.1).1

/- No task is both in the list and dequeued. -/
theorem Queued.not_dequeued
    (hQueued : s.Queued)
    {t : Nat}
    (hMem : t ∈ s.tasks ∨ t ∈ s.dropped)
    (w : Fin W) :
    (t, w) ∉ s.dequeued := by
  intro hBad
  have hPlaces := List.nodup_append.mp hQueued.nodup_places
  have hFirst : t ∈ s.dequeued.map Prod.fst :=
    List.mem_map.mpr ⟨(t, w), hBad, rfl⟩
  exact
    hPlaces.2.2 t hFirst t (by simpa using hMem) rfl

/- A task is dequeued by one worker. -/
theorem Queued.worker_unique
    (hQueued : s.Queued)
    {t : Nat}
    {v w : Fin W}
    (hFirst : (t, v) ∈ s.dequeued)
    (hSecond : (t, w) ∈ s.dequeued) :
    v = w := by
  have hPlaces := List.nodup_append.mp hQueued.nodup_places
  have hPairs :=
    List.inj_on_of_nodup_map hPlaces.1 hFirst hSecond rfl
  exact congrArg Prod.snd hPairs

/- The accepted task goes to the end of the list. -/
theorem Queued.append
    (hQueued : s.Queued)
    (hClosed : s.Closed)
    {t : Nat}
    (hLocked : s.posts t = .locked) :
    (s.next (.postAppend t)).Queued := by
  have hOpen :=
    hClosed.of_none
      (hClosed.none_of_posting hLocked nofun nofun)
  have hEmpty := hQueued.dropped hOpen
  have hNew : t ∉ s.accepted := by
    rw [hQueued.posts t, hLocked]
    simp [PostPhase.Accepted]
  have hOrder := hQueued.order
  rw [hEmpty, List.append_nil] at hOrder
  constructor
  · change
      s.accepted ++ [t] =
        s.dequeued.map Prod.fst ++ (s.tasks ++ [t]) ++ s.dropped
    rw [hEmpty, hOrder]
    simp
  · intro _
    exact hEmpty
  · intro hTrue
    have hBad : s.destroyed = true := hTrue
    rw [hOpen] at hBad
    cases hBad
  · apply List.nodup_append.mpr
    refine ⟨hQueued.nodup, List.nodup_singleton t, ?_⟩
    intro a ha b hb hEq
    rw [List.mem_singleton.mp hb] at hEq
    exact hNew (hEq ▸ ha)
  · intro u
    change u ∈ s.accepted ++ [t] ↔ _
    rw [List.mem_append, List.mem_singleton]
    by_cases hSelf : u = t
    · subst hSelf
      have hPost :
          (s.next (.postAppend u)).posts u = .appended :=
        Function.update_self ..
      rw [hPost]
      simp [PostPhase.Accepted]
    · have hPost :
          (s.next (.postAppend t)).posts u = s.posts u :=
        Function.update_of_ne hSelf ..
      rw [hPost, ← hQueued.posts u]
      simp [hSelf]

/- By cases on what the step does to the list. -/
theorem Queued.next
    (hQueued : s.Queued)
    (hFresh : s.Fresh)
    (hClosed : s.Closed)
    (hEnabled : s.Enabled l) :
    (s.next l).Queued := by
  cases queue_of_next (s := s) (l := l) with
  | same hAppend hDestroy hTasks hDequeued hAccepted hDropped =>
      have hKept := destroyed_of_next (s := s) hDestroy
      constructor
      · rw [hTasks, hDequeued, hAccepted, hDropped]
        exact hQueued.order
      · rw [hKept, hDropped]
        exact hQueued.dropped
      · rw [hKept, hTasks]
        exact hQueued.tasks
      · rw [hAccepted]
        exact hQueued.nodup
      · intro t
        rw [hAccepted, hQueued.posts t,
          accepted_of_next hFresh hEnabled hAppend]
  | appends hStep _ _ _ _ =>
      subst hStep
      exact hQueued.append hClosed hEnabled
  | @takes w t rest hStep hBefore hTasks _ hDequeued hAccepted
      hDropped =>
      have hAppend : ∀ u, l ≠ .postAppend u := by
        intro u hBad
        rw [hBad] at hStep
        rcases hStep with hStep | hStep <;> cases hStep
      have hDestroy : l ≠ .destroy := by
        intro hBad
        rw [hBad] at hStep
        rcases hStep with hStep | hStep <;> cases hStep
      have hKept := destroyed_of_next (s := s) hDestroy
      constructor
      · rw [hTasks, hDequeued, hAccepted, hDropped,
          hQueued.order, hBefore]
        simp
      · rw [hKept, hDropped]
        exact hQueued.dropped
      · intro hTrue
        rw [hKept] at hTrue
        have hBad := hQueued.tasks hTrue
        rw [hBefore] at hBad
        cases hBad
      · rw [hAccepted]
        exact hQueued.nodup
      · intro u
        rw [hAccepted, hQueued.posts u,
          accepted_of_next hFresh hEnabled hAppend]
  | destroys hStep hTasks hDequeued hAccepted hDropped =>
      subst hStep
      have hEmpty := hQueued.dropped hEnabled.1
      have hOrder := hQueued.order
      rw [hEmpty, List.append_nil] at hOrder
      constructor
      · rw [hTasks, hDequeued, hAccepted, hDropped, hOrder,
          List.append_nil]
      · intro hFalse
        cases hFalse
      · intro _
        exact hTasks
      · rw [hAccepted]
        exact hQueued.nodup
      · exact hQueued.posts

end KWorkerPool

end KDoth

------------------------------------------------------------
-- Dispatch to Workers
------------------------------------------------------------

namespace KDoth

namespace WorkerPhase

/- The task that a worker is to execute or executes. -/
def pending : WorkerPhase → Option Nat
| taken t => some t
| running t => some t
| _ => none

/- The task that a worker has executed and still refers to. -/
def done : WorkerPhase → Option Nat
| ran t => some t
| released t => some t
| _ => none

/- A task of which a worker has the list's reference. -/
def Holds (p : WorkerPhase) (t : Nat) : Prop :=
  p.pending = some t ∨ p.done = some t

end WorkerPhase

namespace KWorkerPool

variable {W : Nat}
variable {s : KWorkerPool W}
variable {l : PoolStep W}

/- A dequeued task is with its worker or was executed once. -/
structure Dispatched (s : KWorkerPool W) : Prop where
  holds : ∀ w t, (s.phase w).Holds t → (t, w) ∈ s.dequeued
  pending :
    ∀ w t,
      (t, w) ∈ s.dequeued →
        t ∈ s.executed ∨ (s.phase w).pending = some t
  notYet :
    ∀ w t, (s.phase w).pending = some t → t ∉ s.executed
  done : ∀ w t, (s.phase w).done = some t → t ∈ s.executed
  nodup : s.executed.Nodup
  executed : ∀ t ∈ s.executed, ∃ w, (t, w) ∈ s.dequeued

theorem executed_of_next :
    (∃ w t,
        l = .workerFinish w t ∧
          (s.next l).executed = s.executed ++ [t]) ∨
      ((∀ w t, l ≠ .workerFinish w t) ∧
        (s.next l).executed = s.executed) := by
  cases l with
  | workerFinish w t => exact .inl ⟨w, t, rfl, rfl⟩
  | release actor =>
      rcases s.next_release actor with
        ⟨calls, n, d, hEq⟩
      refine .inr ⟨by simp, ?_⟩
      rw [hEq]
  | workerReleaseUserData w t =>
      rcases s.next_workerReleaseUserData w t with
        ⟨p, calls, n, d, hEq⟩
      refine .inr ⟨by simp, ?_⟩
      rw [hEq]
      rfl
  | workerEnter w =>
      rcases s.next_workerEnter w with
        ⟨workers, tasks, d, hEq⟩
      refine .inr ⟨by simp, ?_⟩
      rw [hEq]
  | workerRecheck w =>
      rcases s.next_workerRecheck w with
        ⟨workers, tasks, d, hEq⟩
      refine .inr ⟨by simp, ?_⟩
      rw [hEq]
  | _ => exact .inr ⟨by simp, rfl⟩

theorem executed_subset
    {t : Nat}
    (hMem : t ∈ s.executed) :
    t ∈ (s.next l).executed := by
  rcases executed_of_next (s := s) (l := l) with
    ⟨w, u, _, hEq⟩ | ⟨_, hEq⟩
  · rw [hEq]
    exact List.mem_append_left _ hMem
  · rw [hEq]
    exact hMem

theorem dequeued_subset
    {p : Nat × Fin W}
    (hMem : p ∈ s.dequeued) :
    p ∈ (s.next l).dequeued := by
  cases queue_of_next (s := s) (l := l) with
  | same _ _ _ hDequeued _ _ =>
      rw [hDequeued]
      exact hMem
  | appends _ _ hDequeued _ _ =>
      rw [hDequeued]
      exact hMem
  | takes _ _ _ _ hDequeued _ _ =>
      rw [hDequeued]
      exact List.mem_append_left _ hMem
  | destroys _ _ hDequeued _ _ =>
      rw [hDequeued]
      exact hMem

/- Who finds a task in the list is given it. -/
theorem takes_of_checks
    {w : Fin W}
    {isRunning : Bool}
    {t : Nat}
    {rest : List Nat}
    (hChecks : s.Checks l w isRunning)
    (hTasks : s.tasks = t :: rest) :
    (s.next l).tasks = rest ∧
      (s.next l).dequeued = s.dequeued ++ [(t, w)] ∧
        (s.next l).workers w =
          { phase := .taken t, isRunning := isRunning } := by
  rcases hChecks with ⟨rfl, _, hRun⟩ | ⟨rfl, _, hRun⟩
  · have hSame : (s.readFlag w).tasks = t :: rest := hTasks
    rw [next, waitOrTake, take, hSame, hRun]
    simp [setMutex, setPhase, readFlag]
  · rw [next, waitOrTake, take, hTasks, hRun]
    simp [setMutex, setPhase]

/- A worker in a critical section is at the list. -/
theorem checks_of_step
    (hEnabled : s.Enabled l)
    {w : Fin W}
    (hStep : l = .workerEnter w ∨ l = .workerRecheck w) :
    ∃ isRunning, s.Checks l w isRunning := by
  rcases hStep with rfl | rfl
  · exact ⟨_, .inl ⟨rfl, hEnabled, rfl⟩⟩
  · exact ⟨_, .inr ⟨rfl, hEnabled, rfl⟩⟩

/-
  A worker's pending task is one it had before, or the first
  of the list.
-/
theorem pending_of_next
    (hEnabled : s.Enabled l)
    {w : Fin W}
    {t : Nat}
    (hPending : ((s.next l).phase w).pending = some t) :
    (s.phase w).pending = some t ∨
      ∃ rest isRunning,
        s.Checks l w isRunning ∧ s.tasks = t :: rest := by
  unfold phase at hPending
  cases worker_of_next hEnabled w with
  | same hSame =>
      rw [hSame] at hPending
      exact .inl hPending
  | advances hStep hAfter =>
      rw [hAfter] at hPending
      cases hStep with
      | @takes _ isRunning u rest hChecks hTasks =>
          cases hPending
          exact .inr ⟨rest, isRunning, hChecks, hTasks⟩
      | starts hPhase =>
          left
          rw [hPhase]
          exact hPending
      | leaves _ _ _ =>
          dsimp only at hPending
          split at hPending <;> cases hPending
      | releasesTask _ =>
          dsimp only at hPending
          split at hPending <;> cases hPending
      | _ => cases hPending

/- A task that a worker is done with was its pending one. -/
theorem done_of_next
    (hEnabled : s.Enabled l)
    {w : Fin W}
    {t : Nat}
    (hDone : ((s.next l).phase w).done = some t) :
    (s.phase w).done = some t ∨
      (l = .workerFinish w t ∧ s.phase w = .running t) := by
  unfold phase at hDone
  cases worker_of_next hEnabled w with
  | same hSame =>
      rw [hSame] at hDone
      exact .inl hDone
  | advances hStep hAfter =>
      rw [hAfter] at hDone
      cases hStep with
      | finishes hPhase =>
          cases hDone
          exact .inr ⟨rfl, hPhase⟩
      | releasesUserData hPhase =>
          left
          rw [hPhase]
          exact hDone
      | leaves _ _ _ =>
          dsimp only at hDone
          split at hDone <;> cases hDone
      | releasesTask _ =>
          dsimp only at hDone
          split at hDone <;> cases hDone
      | _ => cases hDone

/- A pending task stays pending until it is executed. -/
theorem pending_or_finish
    (hEnabled : s.Enabled l)
    {w : Fin W}
    {t : Nat}
    (hPending : (s.phase w).pending = some t) :
    ((s.next l).phase w).pending = some t ∨
      l = .workerFinish w t := by
  have hAfterPhase :
      (s.next l).phase w = ((s.next l).workers w).phase := rfl
  cases worker_of_next hEnabled w with
  | same hSame =>
      left
      rw [hAfterPhase, hSame]
      exact hPending
  | advances hStep hAfter =>
      rw [hAfterPhase, hAfter]
      cases hStep with
      | starts hPhase =>
          rw [hPhase] at hPending
          exact .inl hPending
      | finishes hPhase =>
          rw [hPhase] at hPending
          cases hPending
          exact .inr rfl
      | waits hChecks _ _ =>
          rcases hChecks with ⟨_, hPhase, _⟩ | ⟨_, hPhase, _⟩ <;>
            rw [hPhase] at hPending <;> cases hPending
      | leaves hChecks _ _ =>
          rcases hChecks with ⟨_, hPhase, _⟩ | ⟨_, hPhase, _⟩ <;>
            rw [hPhase] at hPending <;> cases hPending
      | takes hChecks _ =>
          rcases hChecks with ⟨_, hPhase, _⟩ | ⟨_, hPhase, _⟩ <;>
            rw [hPhase] at hPending <;> cases hPending
      | woken hPhase
      | lock hPhase
      | relock hPhase
      | releasesUserData hPhase
      | releasesTask hPhase =>
          rw [hPhase] at hPending
          cases hPending

/- What a worker holds was dequeued by it. -/
theorem Dispatched.holds_next
    (hDispatched : s.Dispatched)
    (hEnabled : s.Enabled l)
    {w : Fin W}
    {t : Nat}
    (hAfter : ((s.next l).phase w).Holds t) :
    (t, w) ∈ (s.next l).dequeued := by
  rcases hAfter with hPending | hDone
  · rcases pending_of_next hEnabled hPending with
      hBefore | ⟨rest, isRunning, hChecks, hTasks⟩
    · exact dequeued_subset (hDispatched.holds w t (.inl hBefore))
    · rw [(takes_of_checks hChecks hTasks).2.1]
      exact List.mem_append_right _ (List.mem_singleton_self _)
  · rcases done_of_next hEnabled hDone with
      hBefore | ⟨_, hRunning⟩
    · exact dequeued_subset (hDispatched.holds w t (.inr hBefore))
    · apply dequeued_subset
      apply hDispatched.holds w t
      left
      rw [hRunning]
      rfl

theorem executed_of_finish
    {w : Fin W}
    {t : Nat}
    (hStep : l = .workerFinish w t) :
    t ∈ (s.next l).executed := by
  subst hStep
  exact List.mem_append_right _ (List.mem_singleton_self t)

/- A dequeued task is still with its worker, or executed. -/
theorem Dispatched.pending_next
    (hDispatched : s.Dispatched)
    (hEnabled : s.Enabled l)
    {w : Fin W}
    {t : Nat}
    (hMem : (t, w) ∈ (s.next l).dequeued) :
    t ∈ (s.next l).executed ∨
      ((s.next l).phase w).pending = some t := by
  have hOld :
      (t, w) ∈ s.dequeued →
        t ∈ (s.next l).executed ∨
          ((s.next l).phase w).pending = some t := by
    intro hBefore
    rcases hDispatched.pending w t hBefore with
      hExecuted | hPending
    · exact .inl (executed_subset hExecuted)
    · rcases pending_or_finish hEnabled hPending with
        hStill | hStep
      · exact .inr hStill
      · exact .inl (executed_of_finish hStep)
  cases queue_of_next (s := s) (l := l) with
  | same _ _ _ hDequeued _ _ =>
      rw [hDequeued] at hMem
      exact hOld hMem
  | appends _ _ hDequeued _ _ =>
      rw [hDequeued] at hMem
      exact hOld hMem
  | takes _ _ _ hPhase hDequeued _ _ =>
      rw [hDequeued] at hMem
      rcases List.mem_append.mp hMem with hBefore | hNew
      · exact hOld hBefore
      · cases List.mem_singleton.mp hNew
        right
        rw [hPhase]
        rfl
  | destroys _ _ hDequeued _ _ =>
      rw [hDequeued] at hMem
      exact hOld hMem

/- A pending task was not executed, by any worker. -/
theorem Dispatched.notYet_next
    (hDispatched : s.Dispatched)
    (hQueued : s.Queued)
    (hQueued' : (s.next l).Queued)
    (hEnabled : s.Enabled l)
    {w : Fin W}
    {t : Nat}
    (hPending : ((s.next l).phase w).pending = some t) :
    t ∉ (s.next l).executed := by
  intro hExecuted
  have hNotBefore : t ∉ s.executed := by
    intro hBefore
    rcases pending_of_next hEnabled hPending with
      hStill | ⟨rest, isRunning, _, hTasks⟩
    · exact hDispatched.notYet w t hStill hBefore
    · rcases hDispatched.executed t hBefore with ⟨v, hMem⟩
      apply hQueued.not_dequeued _ v hMem
      left
      rw [hTasks]
      exact List.mem_cons_self
  rcases executed_of_next (s := s) (l := l) with
    ⟨v, u, hStep, hEq⟩ | ⟨_, hEq⟩
  · rw [hEq] at hExecuted
    rcases List.mem_append.mp hExecuted with hBefore | hNew
    · exact hNotBefore hBefore
    · rw [List.mem_singleton.mp hNew] at hPending
      -- Both workers would have dequeued the task.
      have hRan : (s.next l).phase v = .ran u := by
        rw [hStep]
        change (s.setPhase v (.ran u)).phase v = .ran u
        rw [phase_setPhase, if_pos rfl]
      have hSame : v = w := by
        apply hQueued'.worker_unique
          (hDispatched.holds_next hEnabled
            (.inr (by rw [hRan]; rfl)))
          (hDispatched.holds_next hEnabled (.inl hPending))
      rw [← hSame, hRan] at hPending
      cases hPending
  · rw [hEq] at hExecuted
    exact hNotBefore hExecuted

theorem Dispatched.nodup_next
    (hDispatched : s.Dispatched)
    (hEnabled : s.Enabled l) :
    (s.next l).executed.Nodup := by
  rcases executed_of_next (s := s) (l := l) with
    ⟨w, t, hStep, hEq⟩ | ⟨_, hEq⟩
  · rw [hEq]
    subst hStep
    have hPending : (s.phase w).pending = some t := by
      rw [hEnabled.1]
      rfl
    apply List.nodup_append.mpr
    refine ⟨hDispatched.nodup, List.nodup_singleton t, ?_⟩
    intro a ha b hb hSame
    rw [List.mem_singleton.mp hb] at hSame
    exact hDispatched.notYet w t hPending (hSame ▸ ha)
  · rw [hEq]
    exact hDispatched.nodup

/- What was executed was dequeued. -/
theorem Dispatched.executed_next
    (hDispatched : s.Dispatched)
    (hEnabled : s.Enabled l)
    {t : Nat}
    (hExecuted : t ∈ (s.next l).executed) :
    ∃ w, (t, w) ∈ (s.next l).dequeued := by
  have hOld :
      t ∈ s.executed →
        ∃ w, (t, w) ∈ (s.next l).dequeued := by
    intro hBefore
    rcases hDispatched.executed t hBefore with ⟨w, hMem⟩
    exact ⟨w, dequeued_subset hMem⟩
  rcases executed_of_next (s := s) (l := l) with
    ⟨w, u, hStep, hEq⟩ | ⟨_, hEq⟩
  · rw [hEq] at hExecuted
    rcases List.mem_append.mp hExecuted with hBefore | hNew
    · exact hOld hBefore
    · rw [List.mem_singleton.mp hNew]
      refine ⟨w, dequeued_subset ?_⟩
      apply hDispatched.holds w u
      left
      subst hStep
      rw [hEnabled.1]
      rfl
  · rw [hEq] at hExecuted
    exact hOld hExecuted

theorem Dispatched.next
    (hDispatched : s.Dispatched)
    (hQueued : s.Queued)
    (hQueued' : (s.next l).Queued)
    (hEnabled : s.Enabled l) :
    (s.next l).Dispatched := by
  constructor
  · intro w t
    exact hDispatched.holds_next hEnabled
  · intro w t
    exact hDispatched.pending_next hEnabled
  · intro w t
    exact hDispatched.notYet_next hQueued hQueued' hEnabled
  · intro w t hDone
    rcases done_of_next hEnabled hDone with hBefore | ⟨hStep, _⟩
    · exact executed_subset (hDispatched.done w t hBefore)
    · exact executed_of_finish hStep
  · exact hDispatched.nodup_next hEnabled
  · intro t
    exact hDispatched.executed_next hEnabled

end KWorkerPool

end KDoth

------------------------------------------------------------
-- Reachable States
------------------------------------------------------------

namespace KDoth

namespace KWorkerPool

variable {W : Nat}
variable {s : KWorkerPool W}
variable {l : PoolStep W}

/- The tasks of a pool are where they should be. -/
structure Placed (s : KWorkerPool W) : Prop where
  fresh : s.Fresh
  closed : s.Closed
  queued : s.Queued
  dispatched : s.Dispatched

theorem Placed.new : (new W).Placed := by
  constructor
  · exact ⟨fun _ _ => rfl, fun _ _ => rfl⟩
  · exact .of_open rfl rfl
  · constructor
    · rfl
    · intro _
      rfl
    · intro hTrue
      cases hTrue
    · exact List.nodup_nil
    · intro t
      simp [KWorkerPool.new, PostPhase.Accepted]
  · constructor
    · intro w t hHolds
      rcases hHolds with hBad | hBad <;> cases hBad
    · intro w t hMem
      cases hMem
    · intro w t hBad
      cases hBad
    · intro w t hBad
      cases hBad
    · exact List.nodup_nil
    · intro t hMem
      cases hMem

theorem Placed.next
    (hPlaced : s.Placed)
    (hEnabled : s.Enabled l) :
    (s.next l).Placed := by
  have hQueued :=
    hPlaced.queued.next hPlaced.fresh hPlaced.closed hEnabled
  exact
    { fresh := hPlaced.fresh.next hEnabled
      closed := hPlaced.closed.next hPlaced.fresh hEnabled
      queued := hQueued
      dispatched :=
        hPlaced.dispatched.next hPlaced.queued hQueued
          hEnabled }

theorem Placed.of_reachable
    {C : KWorkerPool W → PoolStep W → Prop}
    (hReach : (workerPool W).ReachableWhere C s) :
    s.Placed := by
  apply hReach.invariant
  · intro s hInit
    rw [hInit]
    exact .new
  · intro s l s' hPlaced _ hStep
    rcases step_inv hStep with ⟨hEnabled, rfl⟩
    exact hPlaced.next hEnabled

end KWorkerPool

end KDoth
