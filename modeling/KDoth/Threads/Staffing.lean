import KDoth.Threads.OpenPool

/-
  Whether the workers of a pool that is not shut down are up
  for the tasks in its list. A procedure may take as long as
  it likes, or wait for another task: at rest no task is left
  in the list unless all workers are in procedures.

  Key definitions include:
    * `KWorkerPool.staff`
    * `KWorkerPool.Staffed`
    * `PoolStep.isReturn`
    * `KWorkerPool.Idles`

  Key theorems include:
    * `KWorkerPool.Staffed.next`
    * `KWorkerPool.Idles.tasks_eq`
    * `KWorkerPool.Idles.executed`
    * `KWorkerPool.executes_all`
-/

------------------------------------------------------------
-- Workers for Tasks
------------------------------------------------------------

namespace KDoth

/- A worker that will look at the list. -/
def WorkerPhase.looks : WorkerPhase → Nat
| .loop => 1
| .entered => 1
| .awake => 1
| .reentered => 1
| _ => 0

/- A post that has yet to notify of its task. -/
def PostPhase.signals : PostPhase → Nat
| .appended => 1
| .notifying => 1
| _ => 0

namespace KWorkerPool

variable {W : Nat} {s r : KWorkerPool W} {l : PoolStep W}

/- The workers that look, and those about to be notified. -/
def staff (s : KWorkerPool W) : Nat :=
  s.measured WorkerPhase.looks PostPhase.signals

/-
  A worker waits only while there are as many of the others
  as there are tasks in the list.
-/
def Staffed (s : KWorkerPool W) : Prop :=
  (∃ w, s.phase w = .waiting) → s.tasks.length ≤ s.staff

namespace Staffed

/- Where neither the list nor the parties are changed. -/
theorem of_same
    (hStaffed : s.Staffed)
    (hTasks : r.tasks = s.tasks)
    (hWorkers : r.workers = s.workers)
    (hPosts : r.posts = s.posts)
    (hNext : r.nextTask = s.nextTask) :
    r.Staffed := by
  rintro ⟨w, hWaits⟩
  unfold KWorkerPool.phase at hWaits
  rw [hWorkers] at hWaits
  have hMeasured :=
    measured_of_same WorkerPhase.looks PostPhase.signals
      hWorkers hPosts hNext
  have hBefore := hStaffed ⟨w, hWaits⟩
  unfold staff at hBefore ⊢
  rw [hMeasured, hTasks]
  exact hBefore

/- A worker goes on, and does not wait. -/
theorem of_worker
    {w : Fin W}
    {v : Worker}
    (hStaffed : s.Staffed)
    (hWorkers : r.workers = Function.update s.workers w v)
    (hPosts : r.posts = s.posts)
    (hNext : r.nextTask = s.nextTask)
    (hGoes : v.phase ≠ .waiting)
    (hMore :
      r.tasks.length + (s.phase w).looks ≤
        s.tasks.length + v.phase.looks) :
    r.Staffed := by
  rintro ⟨u, hWaits⟩
  unfold KWorkerPool.phase at hWaits
  rw [hWorkers] at hWaits
  have hNe : u ≠ w := by
    rintro rfl
    rw [Function.update_self] at hWaits
    exact hGoes hWaits
  rw [Function.update_of_ne hNe] at hWaits
  have hMeasured :=
    measured_of_worker WorkerPhase.looks PostPhase.signals
      hWorkers hPosts hNext
  have hBefore := hStaffed ⟨u, hWaits⟩
  unfold staff at hBefore ⊢
  omega

/- A worker goes on outside of the critical section. -/
theorem of_goes
    {w : Fin W}
    {p : WorkerPhase}
    (hStaffed : s.Staffed)
    (hWorkers : r.workers = (s.setPhase w p).workers)
    (hTasks : r.tasks = s.tasks)
    (hPosts : r.posts = s.posts)
    (hNext : r.nextTask = s.nextTask)
    (hGoes : p ≠ .waiting)
    (hMore : (s.phase w).looks ≤ p.looks) :
    r.Staffed := by
  refine hStaffed.of_worker hWorkers hPosts hNext hGoes ?_
  rw [hTasks]
  exact Nat.add_le_add_left hMore _

/- A post goes on and wakes nobody. -/
theorem of_post
    {t : Nat}
    {p : PostPhase}
    (hStaffed : s.Staffed)
    (hPosts : r.posts = Function.update s.posts t p)
    (hNext : r.nextTask = s.nextTask)
    (hWorkers : r.workers = s.workers)
    (hLess : t < s.nextTask)
    (hMore :
      r.tasks.length + (s.posts t).signals ≤
        s.tasks.length + p.signals) :
    r.Staffed := by
  rintro ⟨w, hWaits⟩
  unfold KWorkerPool.phase at hWaits
  rw [hWorkers] at hWaits
  have hMeasured :=
    measured_of_post WorkerPhase.looks PostPhase.signals
      hPosts hNext hLess
  have hBefore := hStaffed ⟨w, hWaits⟩
  rw [hWorkers] at hMeasured
  unfold staff at hBefore ⊢
  omega

/- A post notifies, and a worker that waits is woken. -/
theorem postNotify
    {t : Nat}
    {woken : Fin W → Bool}
    (hStaffed : s.Staffed)
    (hLess : t < s.nextTask)
    (hEnabled : s.Enabled (.postNotify t woken)) :
    (s.next (.postNotify t woken)).Staffed := by
  rcases hEnabled with ⟨hPhase, hOnly, hSome⟩
  rintro ⟨w, hWaits⟩
  have hBefore : s.phase w = .waiting := by
    rcases s.wake_cases woken w with hSame | ⟨_, hNew⟩
    · exact (congrArg Worker.phase hSame).symm.trans hWaits
    · have hAwake := (congrArg Worker.phase hNew).symm
      cases hAwake.trans hWaits
  rcases hSome ⟨w, hBefore⟩ with ⟨v, hWoken⟩
  have hMore :
      total (fun v : Worker => v.phase.looks) s.workers <
        total (fun v : Worker => v.phase.looks)
          (s.wake woken).workers := by
    apply total_lt_total (p := v)
    · intro u
      rcases s.wake_cases woken u with hSame | ⟨hUp, hNew⟩
      · rw [hSame]
      · rw [hNew, show (s.workers u).phase = .waiting from
          hOnly u hUp]
        exact Nat.zero_le _
    · have hNew :
          (s.wake woken).workers v =
            { s.workers v with phase := .awake } :=
        if_pos hWoken
      rw [hNew, show (s.workers v).phase = .waiting from
        hOnly v hWoken]
      exact Nat.one_pos
  have hMeasured :=
    measured_of_post (s := s)
      (r := s.next (.postNotify t woken)) WorkerPhase.looks
      PostPhase.signals rfl rfl hLess
  have hStaff := hStaffed ⟨w, hBefore⟩
  have hTasks :
      (s.next (.postNotify t woken)).tasks = s.tasks := rfl
  have hWorkers :
      (s.next (.postNotify t woken)).workers =
        (s.wake woken).workers := rfl
  rw [hPhase, hWorkers] at hMeasured
  change _ + 1 + _ = _ + 0 + _ at hMeasured
  unfold staff at hStaff ⊢
  rw [hTasks]
  omega

/- A worker that finds no task waits, and any other goes. -/
theorem checks
    {w : Fin W}
    {isRunning : Bool}
    (hStaffed : s.Staffed)
    (hFlag : s.shutdown = false)
    (hChecks : s.Checks l w isRunning) :
    (s.next l).Staffed := by
  rcases frame_of_checks hChecks with ⟨hPosts, hNext⟩
  cases hTasks : s.tasks with
  | nil =>
      intro _
      rw [(waits_of_checks hChecks hTasks hFlag).1]
      exact Nat.zero_le _
  | cons t rest =>
      rcases takes_of_checks hChecks hTasks with
        ⟨hAfter, _, hTaken⟩
      have hLooks : (s.phase w).looks = 1 := by
        rcases hChecks with ⟨_, hPhase, _⟩ | ⟨_, hPhase, _⟩ <;>
          rw [hPhase] <;> rfl
      refine
        hStaffed.of_worker (workers_of_checks hChecks) hPosts
          hNext ?_ ?_
      · rw [hTaken]
        nofun
      · rw [hTaken, hLooks, hAfter, hTasks]
        exact le_rfl

/- Every step of a pool that is not shut down. -/
theorem next
    (hStaffed : s.Staffed)
    (hOpen : s.Open)
    (hEnabled : s.Enabled l) :
    (s.next l).Staffed := by
  cases l with
  | retain => exact hStaffed.of_same rfl rfl rfl rfl
  | release actor =>
      rcases s.next_release actor with
        ⟨calls, n, d, hEq⟩
      rw [hEq]
      exact hStaffed.of_same rfl rfl rfl rfl
  | shutdownBegin caller =>
      exact hStaffed.of_same rfl rfl rfl rfl
  | postBegin o =>
      have hMeasured :=
        s.measured_of_begin WorkerPhase.looks
          PostPhase.signals o
      rintro ⟨w, hWaits⟩
      have hBefore := hStaffed ⟨w, hWaits⟩
      have hTasks :
          (s.next (.postBegin o)).tasks = s.tasks := rfl
      unfold staff at hBefore ⊢
      rw [hTasks, hMeasured]
      exact Nat.le_add_right_of_le hBefore
  | postLock t =>
      have hLess := hOpen.lt_of_post hEnabled.1 nofun
      apply
        hStaffed.of_post (r := s.next (.postLock t)) rfl rfl
          rfl hLess
      rw [hEnabled.1]
      exact le_rfl
  | postAppend t =>
      have hLocked : s.posts t = .locked := hEnabled
      have hLess := hOpen.lt_of_post hLocked nofun
      apply
        hStaffed.of_post (r := s.next (.postAppend t)) rfl rfl
          rfl hLess
      have hLength :
          (s.next (.postAppend t)).tasks.length =
            s.tasks.length + 1 := List.length_append
      rw [hLocked, hLength]
      exact le_rfl
  | postReleaseTask t =>
      have hAppended : s.posts t = .appended := hEnabled
      have hLess := hOpen.lt_of_post hAppended nofun
      apply
        hStaffed.of_post (r := s.next (.postReleaseTask t))
          rfl rfl rfl hLess
      rw [hAppended]
      exact le_rfl
  | postNotify t woken =>
      have hLess := hOpen.lt_of_post hEnabled.1 nofun
      exact hStaffed.postNotify hLess hEnabled
  | workerEnter w =>
      exact
        hStaffed.checks hOpen.shutdown_eq
          (.inl ⟨rfl, hEnabled, rfl⟩)
  | workerRecheck w =>
      exact
        hStaffed.checks hOpen.shutdown_eq
          (.inr ⟨rfl, hEnabled, rfl⟩)
  | workerSpurious w =>
      have hWaits : s.phase w = .waiting := hEnabled
      refine
        hStaffed.of_goes (r := s.next (.workerSpurious w))
          (w := w) rfl rfl rfl rfl nofun ?_
      rw [hWaits]
      exact Nat.zero_le _
  | workerLock w =>
      refine
        hStaffed.of_goes (r := s.next (.workerLock w))
          (w := w) rfl rfl rfl rfl nofun ?_
      rw [hEnabled.1]
      exact le_rfl
  | workerRelock w =>
      refine
        hStaffed.of_goes (r := s.next (.workerRelock w))
          (w := w) rfl rfl rfl rfl nofun ?_
      rw [hEnabled.1]
      exact le_rfl
  | workerStart w t =>
      have hTaken : s.phase w = .taken t := hEnabled
      refine
        hStaffed.of_goes (r := s.next (.workerStart w t))
          (w := w) rfl rfl rfl rfl nofun ?_
      rw [hTaken]
      exact le_rfl
  | workerFinish w t =>
      refine
        hStaffed.of_goes (r := s.next (.workerFinish w t))
          (w := w) rfl rfl rfl rfl nofun ?_
      rw [hEnabled.1]
      exact le_rfl
  | workerReleaseUserData w t =>
      rcases s.next_workerReleaseUserData w t with
        ⟨p, calls, n, d, hEq⟩
      refine
        hStaffed.of_goes
          (r := s.next (.workerReleaseUserData w t)) (w := w)
          (p := .released t) (by rw [hEq]; rfl)
          (by rw [hEq]; rfl) (by rw [hEq]; rfl)
          (by rw [hEq]; rfl) nofun ?_
      rw [hEnabled.1]
      exact le_rfl
  | workerReleaseTask w t =>
      refine
        hStaffed.of_goes (r := s.next (.workerReleaseTask w t))
          (w := w) rfl rfl rfl rfl ?_ ?_
      · split <;> nofun
      · rw [hEnabled.1]
        exact Nat.zero_le _
  | shutdownLock c
  | shutdownSetFlag c
  | shutdownNotifyAll c
  | shutdownJoin c w
  | shutdownClear c
  | destroy =>
      exact absurd hEnabled (hOpen.not_shutdown rfl)

/- Until a shutdown begins. -/
theorem of_reachable
    (hPos : 0 < W)
    (hReach : (workerPool W).Reachable s)
    (hNone : s.nextCall = 0) :
    s.Staffed := by
  induction hReach with
  | init hInit =>
      cases hInit
      intro _
      exact Nat.zero_le _
  | step hReach _ hStep ih =>
      have hBefore := nextCall_back hStep hNone
      rcases step_inv hStep with ⟨hEnabled, rfl⟩
      exact
        (ih hBefore).next (.of_reachable hPos hReach hBefore)
          hEnabled

end Staffed

end KWorkerPool

end KDoth

------------------------------------------------------------
-- At Rest
------------------------------------------------------------

namespace KDoth

/-
  Code of the client that a worker runs comes to its end: a
  procedure, or what the release of user data calls.
-/
def PoolStep.isReturn {W : Nat} : PoolStep W → Bool
| .workerFinish _ _ => true
| .workerReleaseUserData _ _ => true
| _ => false

namespace KWorkerPool

variable {W : Nat} {s : KWorkerPool W}

theorem isOwn_exit
    (owner : MutexOwner W) :
    (s.exit owner).isOwn = true ∧
      (s.exit owner).isReturn = false := by
  cases owner with
  | poster t => exact ⟨rfl, rfl⟩
  | shutdown c => exact ⟨rfl, rfl⟩
  | worker w =>
      by_cases hEntered : s.phase w = .entered
      · have hExit : s.exit (.worker w) = .workerEnter w :=
          if_pos hEntered
        rw [hExit]
        exact ⟨rfl, rfl⟩
      · have hExit : s.exit (.worker w) = .workerRecheck w :=
          if_neg hEntered
        rw [hExit]
        exact ⟨rfl, rfl⟩

/- The pool can do no more than come back from a client. -/
def Idles (s : KWorkerPool W) : Prop :=
  ∀ l,
    l.isOwn = true → l.isReturn = false → ¬ s.Enabled l

theorem Idles.mutex_eq
    (hOpen : s.Open)
    (hIdles : s.Idles) :
    s.mutex = none := by
  cases hMutex : s.mutex with
  | none => rfl
  | some owner =>
      rcases s.isOwn_exit owner with ⟨hOwn, hOther⟩
      have hInside := hOpen.regular.owned owner hMutex
      exact absurd hInside.exits.1 (hIdles _ hOwn hOther)

/- All posts have returned. -/
theorem Idles.post_eq
    (hOpen : s.Open)
    (hIdles : s.Idles)
    {t : Nat}
    (hLess : t < s.nextTask) :
    s.posts t = .returned := by
  have hMutex := hIdles.mutex_eq hOpen
  cases hPhase : s.posts t with
  | returned => rfl
  | idle => exact absurd hPhase (hOpen.unstopped.begun t hLess)
  | prepared =>
      exact
        absurd ⟨hPhase, hMutex⟩ (hIdles (.postLock t) rfl rfl)
  | locked =>
      exact absurd hPhase (hIdles (.postAppend t) rfl rfl)
  | appended =>
      exact
        absurd hPhase (hIdles (.postReleaseTask t) rfl rfl)
  | notifying =>
      let woken : Fin W → Bool := fun w => s.phase w = .waiting
      have hEnabled : s.Enabled (.postNotify t woken) := by
        refine ⟨hPhase, fun w => of_decide_eq_true, ?_⟩
        rintro ⟨w, hWaits⟩
        exact ⟨w, decide_eq_true hWaits⟩
      exact absurd hEnabled (hIdles _ rfl rfl)

theorem Idles.quiet
    (hOpen : s.Open)
    (hIdles : s.Idles) :
    s.Quiet := by
  refine ⟨fun t hLess => hIdles.post_eq hOpen hLess, ?_⟩
  intro c hLess
  have hNone := hOpen.calls
  omega

/- A worker waits, or is in code of the client. -/
theorem Idles.phase_eq
    (hOpen : s.Open)
    (hIdles : s.Idles)
    (w : Fin W) :
    s.phase w = .waiting ∨ (s.phase w).inTask = true := by
  have hMutex := hIdles.mutex_eq hOpen
  cases hPhase : s.phase w with
  | waiting => exact .inl rfl
  | running t => exact .inr rfl
  | ran t => exact .inr rfl
  | loop =>
      exact
        absurd ⟨hPhase, hMutex⟩
          (hIdles (.workerLock w) rfl rfl)
  | awake =>
      exact
        absurd ⟨hPhase, hMutex⟩
          (hIdles (.workerRelock w) rfl rfl)
  | entered =>
      exact absurd hPhase (hIdles (.workerEnter w) rfl rfl)
  | reentered =>
      exact absurd hPhase (hIdles (.workerRecheck w) rfl rfl)
  | taken t =>
      exact absurd hPhase (hIdles (.workerStart w t) rfl rfl)
  | released t =>
      exact
        absurd ⟨hPhase, hOpen.free w⟩
          (hIdles (.workerReleaseTask w t) rfl rfl)
  | ended =>
      have hWorker :=
        hOpen.unstopped.worker w hOpen.shutdown_eq
      exact absurd hPhase hWorker.2

/- A worker can come back from code of the client. -/
theorem Idles.returns
    (hOpen : s.Open)
    (hIdles : s.Idles)
    {w : Fin W}
    (hInside : (s.phase w).inTask = true) :
    ∃ t,
      (s.phase w = .running t ∧
          s.Enabled (.workerFinish w t)) ∨
        (s.phase w = .ran t ∧
          s.Enabled (.workerReleaseUserData w t)) := by
  cases hPhase : s.phase w with
  | running t =>
      exact ⟨t, .inl ⟨rfl, hPhase, hOpen.free w⟩⟩
  | ran t =>
      have hRegular := hOpen.regular
      refine ⟨t, .inr ⟨rfl, hPhase, hOpen.free w, ?_⟩⟩
      intro hPool
      exact
        ⟨hRegular.pinned.pos hRegular.settled.released hPool,
          fun _ => hIdles.quiet hOpen⟩
  | _ =>
      rw [hPhase] at hInside
      cases hInside

/- Nobody looks at the list, or is about to be notified. -/
theorem Idles.staff_eq
    (hOpen : s.Open)
    (hIdles : s.Idles) :
    s.staff = 0 := by
  have hWorkers :
      total (fun v : Worker => v.phase.looks) s.workers =
        0 := by
    apply total_eq_zero_iff.mpr
    intro w
    show (s.phase w).looks = 0
    rcases hIdles.phase_eq hOpen w with hWaits | hInside
    · rw [hWaits]
      rfl
    · cases hPhase : s.phase w <;> rw [hPhase] at hInside <;>
        first | rfl | cases hInside
  have hPosts :
      ∑ t ∈ Finset.range s.nextTask, (s.posts t).signals =
        0 := by
    apply Finset.sum_eq_zero
    intro t hMem
    rw [hIdles.post_eq hOpen (Finset.mem_range.mp hMem)]
    rfl
  unfold staff measured
  rw [hWorkers, hPosts]

/- While a worker waits, no task is in the list. -/
theorem Idles.tasks_eq
    (hOpen : s.Open)
    (hStaffed : s.Staffed)
    (hIdles : s.Idles)
    (hWaits : ∃ w, s.phase w = .waiting) :
    s.tasks = [] := by
  have hMost := hStaffed hWaits
  rw [hIdles.staff_eq hOpen] at hMost
  exact List.eq_nil_of_length_eq_zero (Nat.le_zero.mp hMost)

/- A task that was posted was executed, or it is running. -/
theorem Idles.executed
    (hOpen : s.Open)
    (hIdles : s.Idles)
    (hTasks : s.tasks = [])
    {t : Nat}
    (hLess : t < s.nextTask) :
    t ∈ s.executed ∨ ∃ w, s.phase w = .running t := by
  have hPlaced := hOpen.regular.settled.placed
  have hAccepted : t ∈ s.accepted := by
    rw [hPlaced.queued.posts t]
    exact .inr (.inr (hIdles.post_eq hOpen hLess))
  have hNone : s.deInit = none :=
    hPlaced.closed.none_of_referenced hOpen.refCount_pos
  rw [hPlaced.queued.order, hTasks,
    hPlaced.queued.dropped (hPlaced.closed.of_none hNone),
    List.append_nil, List.append_nil] at hAccepted
  rcases List.mem_map.mp hAccepted with ⟨⟨u, w⟩, hMem, rfl⟩
  rcases hPlaced.dispatched.pending w u hMem with
    hExecuted | hPending
  · exact .inl hExecuted
  · right
    refine ⟨w, ?_⟩
    rcases hIdles.phase_eq hOpen w with hWaits | hInside
    · rw [hWaits] at hPending
      cases hPending
    · cases hPhase : s.phase w with
      | running v =>
          rw [hPhase] at hPending
          cases hPending
          rfl
      | taken v =>
          rw [hPhase] at hInside
          cases hInside
      | _ =>
          rw [hPhase] at hPending
          cases hPending

/- User data of an executed task was given up, or is now. -/
theorem Open.released
    (hOpen : s.Open)
    {t : Nat}
    {o : UserData}
    (hRetained : (t, o) ∈ s.retained)
    (hExecuted : t ∈ s.executed) :
    (t, o) ∈ s.released ∨ ∃ w, s.phase w = .ran t := by
  by_cases hRan : ∃ w, s.phase w = .ran t
  · exact .inr hRan
  · left
    apply
      (hOpen.regular.settled.released.gone t o hRetained).mpr
    exact .inr ⟨hExecuted, fun w hPhase => hRan ⟨w, hPhase⟩⟩

/- Where all wait and all posts have returned, nothing goes. -/
theorem Open.stops
    (hOpen : s.Open)
    (hWaits : ∀ w, s.phase w = .waiting)
    (hPosts : ∀ t < s.nextTask, s.posts t = .returned)
    {l : PoolStep W}
    (hOwn : l.isOwn = true) :
    ¬ s.Enabled l := by
  intro hEnabled
  have hPost :
      ∀ {t : Nat} {p : PostPhase},
        s.posts t = p → p ≠ .idle → p = .returned := by
    intro t p hPhase hBegun
    have hLess := hOpen.lt_of_post hPhase hBegun
    exact hPhase.symm.trans (hPosts t hLess)
  have hWorker :
      ∀ {w : Fin W} {p : WorkerPhase},
        s.phase w = p → p = .waiting := by
    intro w p hPhase
    exact hPhase.symm.trans (hWaits w)
  cases l with
  | retain | release _ | postBegin _ | workerSpurious _
  | shutdownBegin _ => cases hOwn
  | postLock t => cases hPost hEnabled.1 nofun
  | postAppend t => cases hPost hEnabled nofun
  | postReleaseTask t => cases hPost hEnabled nofun
  | postNotify t woken => cases hPost hEnabled.1 nofun
  | workerLock w => cases hWorker hEnabled.1
  | workerEnter w => cases hWorker hEnabled
  | workerRelock w => cases hWorker hEnabled.1
  | workerRecheck w => cases hWorker hEnabled
  | workerStart w t => cases hWorker hEnabled
  | workerFinish w t => cases hWorker hEnabled.1
  | workerReleaseUserData w t => cases hWorker hEnabled.1
  | workerReleaseTask w t => cases hWorker hEnabled.1
  | shutdownLock c
  | shutdownSetFlag c
  | shutdownNotifyAll c
  | shutdownJoin c w
  | shutdownClear c
  | destroy =>
      exact absurd hEnabled (hOpen.not_shutdown rfl)

end KWorkerPool

end KDoth


------------------------------------------------------------
-- Executing All Tasks
------------------------------------------------------------

namespace KDoth

namespace KWorkerPool

variable {W : Nat} {s : KWorkerPool W}

/- All workers wait where they come back from no client. -/
theorem Idles.waits
    (hOpen : s.Open)
    (hIdles : s.Idles)
    (hNone : ∀ l : PoolStep W, l.isOwn = true → ¬ s.Enabled l)
    (w : Fin W) :
    s.phase w = .waiting := by
  rcases hIdles.phase_eq hOpen w with hWaits | hInside
  · exact hWaits
  · rcases hIdles.returns hOpen hInside with
      ⟨t, ⟨_, hEnabled⟩ | ⟨_, hEnabled⟩⟩
    · exact absurd hEnabled (hNone _ rfl)
    · exact absurd hEnabled (hNone _ rfl)

/-
  A pool that is not shut down executes every task. However
  it is scheduled, it takes so many steps for each post and
  for each wakeup that it did not ask for. Procedures may
  wait for each other, and need not return: where the pool
  can go on only by their return, all posts have returned,
  and no task that was posted is left out unless all workers
  are in tasks. Where they have all come back as well, every
  task has been executed, its user data has been released and
  all workers wait.
-/
theorem executes_all
    (hPos : 0 < W)
    {ls : List (PoolStep W)}
    (hExec : (workerPool W).exec (new W) ls = some s)
    (hNone : s.nextCall = 0) :
    ls.countP PoolStep.isOwn ≤
        2 * W + (ls.map PoolStep.price).sum ∧
      ((∀ l, l.isOwn = true → l.isReturn = false →
          (workerPool W).step s l = none) →
        (∀ t < s.nextTask, s.posts t = .returned) ∧
          ((∀ w, (s.phase w).inTask = true) ∨
            ∀ t < s.nextTask,
              t ∈ s.executed ∨ ∃ w, s.phase w = .running t) ∧
            ∀ p ∈ s.retained,
              p.1 ∈ s.executed →
                p ∈ s.released ∨ ∃ w, s.phase w = .ran p.1) ∧
        ((∀ l, l.isOwn = true →
            (workerPool W).step s l = none) →
          (∀ w, s.phase w = .waiting) ∧
            (∀ t < s.nextTask,
              s.posts t = .returned ∧ t ∈ s.executed) ∧
              ∀ p ∈ s.retained, p ∈ s.released) := by
  have hReach := TransitionSystem.reachable_of_exec rfl hExec
  have hOpen := Open.of_reachable hPos hReach hNone
  have hStaffed := Staffed.of_reachable hPos hReach hNone
  have hStops :
      ∀ l : PoolStep W,
        (workerPool W).step s l = none → ¬ s.Enabled l := by
    intro l hNothing hEnabled
    have hStep :
        (workerPool W).step s l = some (s.next l) :=
      if_pos hEnabled
    rw [hNothing] at hStep
    cases hStep
  refine ⟨countP_isOwn_le hPos hExec hNone, ?_, ?_⟩
  · intro hNothing
    have hIdles : s.Idles := fun l hOwn hOther =>
      hStops l (hNothing l hOwn hOther)
    refine ⟨fun t hLess => hIdles.post_eq hOpen hLess, ?_, ?_⟩
    · by_cases hSome : ∃ w, s.phase w = .waiting
      · have hTasks := hIdles.tasks_eq hOpen hStaffed hSome
        exact
          .inr fun t hLess =>
            hIdles.executed hOpen hTasks hLess
      · left
        intro w
        rcases hIdles.phase_eq hOpen w with hWaits | hInside
        · exact absurd ⟨w, hWaits⟩ hSome
        · exact hInside
    · rintro ⟨t, o⟩ hRetained hExecuted
      exact hOpen.released hRetained hExecuted
  · intro hNothing
    have hIdles : s.Idles := fun l hOwn _ =>
      hStops l (hNothing l hOwn)
    have hWaits :=
      hIdles.waits hOpen fun l hOwn =>
        hStops l (hNothing l hOwn)
    have hTasks :=
      hIdles.tasks_eq hOpen hStaffed ⟨⟨0, hPos⟩, hWaits _⟩
    have hExecuted :
        ∀ t < s.nextTask, t ∈ s.executed := by
      intro t hLess
      rcases hIdles.executed hOpen hTasks hLess with
        hDone | ⟨w, hRunning⟩
      · exact hDone
      · rw [hWaits w] at hRunning
        cases hRunning
    refine ⟨hWaits, ?_, ?_⟩
    · intro t hLess
      exact ⟨hIdles.post_eq hOpen hLess, hExecuted t hLess⟩
    · rintro ⟨t, o⟩ hRetained
      have hReleased := hOpen.regular.settled.released
      have hLess := hReleased.known _ hRetained
      rcases hOpen.released hRetained (hExecuted t hLess) with
        hGone | ⟨w, hRan⟩
      · exact hGone
      · rw [hWaits w] at hRan
        cases hRan

/- A task on one worker, which takes all the steps it may. -/
theorem executes_all_one :
    ∃ (ls : List (PoolStep 1)) (s : KWorkerPool 1),
      (workerPool 1).exec (new 1) ls = some s ∧
        ls.countP PoolStep.isOwn =
            2 * 1 + (ls.map PoolStep.price).sum ∧
          (∀ w, s.phase w = .waiting) ∧
            (∀ t < s.nextTask,
              s.posts t = .returned ∧ t ∈ s.executed) ∧
              ∀ p ∈ s.retained, p ∈ s.released := by
  have hExec :
      (workerPool 1).exec (new 1)
          [.workerLock 0, .workerEnter 0,
            .postBegin (some (.object 7)), .postLock 0,
            .postAppend 0, .postReleaseTask 0,
            .postNotify 0 fun _ => true, .workerRelock 0,
            .workerRecheck 0, .workerStart 0 0,
            .workerFinish 0 0, .workerReleaseUserData 0 0,
            .workerReleaseTask 0 0, .workerLock 0,
            .workerEnter 0] = some _ := rfl
  have hReach := TransitionSystem.reachable_of_exec rfl hExec
  have hOpen := Open.of_reachable Nat.one_pos hReach rfl
  have hAll := executes_all Nat.one_pos hExec rfl
  refine ⟨_, _, hExec, rfl, ?_⟩
  apply hAll.2.2
  intro l hOwn
  apply if_neg
  apply hOpen.stops _ _ hOwn
  · intro w
    rw [Subsingleton.elim w 0]
    rfl
  · intro t hLess
    have hZero : t = 0 := Nat.lt_one_iff.mp hLess
    rw [hZero]
    rfl

end KWorkerPool

end KDoth
