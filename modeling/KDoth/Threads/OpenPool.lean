import KDoth.Foundations.Totals
import KDoth.Threads.Regularity

/-
  A worker pool before its first shutdown. Its own steps come
  to an end under any scheduling: each of them is paid for by
  a post, or by a wakeup that nobody asked for.

  Key definitions include:
    * `KWorkerPool.Unstopped`
    * `KWorkerPool.Open`
    * `PoolStep.isOwn`
    * `PoolStep.price`
    * `KWorkerPool.measured`
    * `KWorkerPool.work`

  Key theorems include:
    * `KWorkerPool.Unstopped.next`
    * `KWorkerPool.measured_of_worker`
    * `KWorkerPool.measured_of_post`
    * `KWorkerPool.work_next`
    * `KWorkerPool.countP_isOwn_le`
-/

------------------------------------------------------------
-- Before a Shutdown
------------------------------------------------------------

namespace KDoth

namespace KWorkerPool

variable {W : Nat} {s : KWorkerPool W} {l : PoolStep W}

/-
  What a shutdown call brings about, and the loss of the last
  reference with it, and that posts do not go back.
-/
structure Unstopped (s : KWorkerPool W) : Prop where
  flag : s.shutdown = true → 0 < s.nextCall
  worker :
    ∀ w,
      s.shutdown = false →
        (s.workers w).isRunning = true ∧ s.phase w ≠ .ended
  count : s.refCount = 0 → 0 < s.nextCall
  begun : ∀ t < s.nextTask, s.posts t ≠ .idle

theorem Unstopped.new : (new W).Unstopped := by
  constructor
  · nofun
  · intro w _
    exact ⟨rfl, nofun⟩
  · nofun
  · nofun

theorem Unstopped.flag_next
    (hUnstopped : s.Unstopped)
    (hFresh : s.Fresh)
    (hEnabled : s.Enabled l)
    (hFlag : (s.next l).shutdown = true) :
    0 < (s.next l).nextCall := by
  have hMore := nextCall_le (s := s) (l := l)
  rcases shutdown_of_next (s := s) (l := l) with
    hSame | ⟨c, hStep, _⟩
  · rw [hSame] at hFlag
    have hPos := hUnstopped.flag hFlag
    omega
  · subst hStep
    have hLocked : (s.calls c).phase = .locked := hEnabled
    by_contra hNone
    have hIdle := hFresh.calls c (by omega)
    rw [hIdle] at hLocked
    cases hLocked

/- A worker goes on running until the flag is set. -/
theorem Unstopped.worker_next
    (hUnstopped : s.Unstopped)
    (hEnabled : s.Enabled l)
    (hFlag : (s.next l).shutdown = false)
    (w : Fin W) :
    ((s.next l).workers w).isRunning = true ∧
      (s.next l).phase w ≠ .ended := by
  have hClear : s.shutdown = false := by
    by_contra hSet
    rw [shutdown_next (by simpa using hSet)] at hFlag
    cases hFlag
  rcases hUnstopped.worker w hClear with ⟨hRunning, hNot⟩
  have hChecked :
      ∀ {isRunning : Bool},
        s.Checks l w isRunning → isRunning = true := by
    rintro isRunning (⟨_, _, hEq⟩ | ⟨_, _, hEq⟩)
    · rw [hEq, hRunning, hClear]
      rfl
    · rw [hEq, hRunning]
  unfold KWorkerPool.phase
  cases worker_of_next hEnabled w with
  | same hSame =>
      rw [hSame]
      exact ⟨hRunning, hNot⟩
  | advances hStep hAfter =>
      rw [hAfter]
      cases hStep with
      | waits hChecks _ _ => exact ⟨hChecked hChecks, nofun⟩
      | takes hChecks _ => exact ⟨hChecked hChecks, nofun⟩
      | leaves _ _ hSet =>
          rw [hClear] at hSet
          cases hSet
      | releasesTask _ =>
          refine ⟨hRunning, ?_⟩
          dsimp only
          rw [if_pos hRunning]
          nofun
      | _ => exact ⟨hRunning, nofun⟩

/- The last reference is lost to a shutdown. -/
theorem nextCall_pos_of_deInitIfLast
    (actor : Option (Fin W))
    (hZero : (s.deInitIfLast actor).refCount = 0) :
    0 < (s.deInitIfLast actor).nextCall := by
  rcases s.deInitIfLast_cases actor with
    ⟨hMore, hEq⟩ | ⟨_, hEq⟩
  · rw [hEq] at hZero
    exact absurd hZero hMore
  · rw [hEq]
    exact Nat.succ_pos _

theorem Unstopped.count_next
    (hUnstopped : s.Unstopped)
    (hEnabled : s.Enabled l)
    (hZero : (s.next l).refCount = 0) :
    0 < (s.next l).nextCall := by
  cases l with
  | release actor =>
      exact nextCall_pos_of_deInitIfLast actor hZero
  | workerReleaseUserData w t =>
      rw [next, releaseUserData] at hZero ⊢
      split
      next hPool =>
        rw [if_pos hPool] at hZero
        exact nextCall_pos_of_deInitIfLast (some w) hZero
      next hPool =>
        rw [if_neg hPool] at hZero
        exact hUnstopped.count hZero
  | retain =>
      have hMore : s.clients + 1 + s.pinned = 0 := hZero
      omega
  | postBegin o =>
      have hPos : 0 < s.refCount := hEnabled
      have hSum :
          s.clients +
              (s.pinned + if o = some .pool then 1 else 0) =
            0 := hZero
      unfold refCount at hPos
      omega
  | workerEnter w =>
      rcases s.next_workerEnter w with
        ⟨workers, tasks, d, hEq⟩
      rw [hEq] at hZero ⊢
      exact hUnstopped.count hZero
  | workerRecheck w =>
      rcases s.next_workerRecheck w with
        ⟨workers, tasks, d, hEq⟩
      rw [hEq] at hZero ⊢
      exact hUnstopped.count hZero
  | shutdownBegin caller => exact Nat.succ_pos _
  | _ => exact hUnstopped.count hZero

/- Only a post takes a number. -/
theorem nextTask_of_next :
    (s.next l).nextTask = s.nextTask ∨
      ∃ o, l = .postBegin o := by
  cases l with
  | postBegin o => exact .inr ⟨o, rfl⟩
  | release actor =>
      rcases s.next_release actor with
        ⟨calls, n, d, hEq⟩
      left
      rw [hEq]
  | workerReleaseUserData w t =>
      rcases s.next_workerReleaseUserData w t with
        ⟨p, calls, n, d, hEq⟩
      left
      rw [hEq]
      rfl
  | workerEnter w =>
      rcases s.next_workerEnter w with
        ⟨workers, tasks, d, hEq⟩
      left
      rw [hEq]
  | workerRecheck w =>
      rcases s.next_workerRecheck w with
        ⟨workers, tasks, d, hEq⟩
      left
      rw [hEq]
  | _ => exact .inl rfl

theorem Unstopped.begun_next
    (hUnstopped : s.Unstopped)
    {t : Nat}
    (hLess : t < (s.next l).nextTask) :
    (s.next l).posts t ≠ .idle := by
  by_cases hOld : t < s.nextTask
  · have hBegun := hUnstopped.begun t hOld
    rcases post_of_next (s := s) (l := l) t with
      hSame | ⟨_, _, hPhase⟩ | ⟨_, hPhase⟩ | ⟨_, hPhase⟩ |
        ⟨_, hPhase⟩ | ⟨_, hPhase⟩
    · rw [hSame]
      exact hBegun
    all_goals
      rw [hPhase]
      nofun
  · rcases nextTask_of_next (s := s) (l := l) with
      hSame | ⟨o, rfl⟩
    · rw [hSame] at hLess
      exact absurd hLess hOld
    · have hMore : t < s.nextTask + 1 := hLess
      have hSelf : t = s.nextTask := by omega
      have hPhase :
          (s.next (.postBegin o)).posts t = .prepared := by
        rw [hSelf]
        exact Function.update_self ..
      rw [hPhase]
      nofun

theorem Unstopped.next
    (hUnstopped : s.Unstopped)
    (hFresh : s.Fresh)
    (hEnabled : s.Enabled l) :
    (s.next l).Unstopped where
  flag := hUnstopped.flag_next hFresh hEnabled
  worker := fun w hFlag =>
    hUnstopped.worker_next hEnabled hFlag w
  count := hUnstopped.count_next hEnabled
  begun := fun _ hLess => hUnstopped.begun_next hLess

/-
  No shutdown has begun: nobody called it, and somebody has a
  reference.
-/
structure Open (s : KWorkerPool W) : Prop where
  regular : s.Regular
  unstopped : s.Unstopped
  calls : s.nextCall = 0

theorem Open.of_reachable
    (hPos : 0 < W)
    (hReach : (workerPool W).Reachable s)
    (hNone : s.nextCall = 0) :
    s.Open := by
  refine ⟨.of_reachable hPos hReach, ?_, hNone⟩
  have hBoth : s.Fresh ∧ s.Unstopped := by
    apply hReach.invariant
    · intro s hInit
      rw [hInit]
      exact ⟨⟨fun _ _ => rfl, fun _ _ => rfl⟩, .new⟩
    · intro s l s' hBoth hStep
      rcases step_inv hStep with ⟨hEnabled, rfl⟩
      exact
        ⟨hBoth.1.next hEnabled, hBoth.2.next hBoth.1 hEnabled⟩
  exact hBoth.2

theorem Open.fresh (hOpen : s.Open) : s.Fresh :=
  hOpen.regular.settled.placed.fresh

theorem Open.shutdown_eq (hOpen : s.Open) :
    s.shutdown = false := by
  by_contra hSet
  have hPos := hOpen.unstopped.flag (by simpa using hSet)
  have hNone := hOpen.calls
  omega

theorem Open.refCount_pos (hOpen : s.Open) :
    0 < s.refCount := by
  by_contra hZero
  have hPos := hOpen.unstopped.count (by omega)
  have hNone := hOpen.calls
  omega

theorem Open.free (hOpen : s.Open) (w : Fin W) : s.Free w := by
  intro c hLess
  have hNone := hOpen.calls
  omega

end KWorkerPool

/- A step of a shutdown that has begun, or of its end. -/
def PoolStep.isShutdown {W : Nat} : PoolStep W → Bool
| .shutdownLock _ => true
| .shutdownSetFlag _ => true
| .shutdownNotifyAll _ => true
| .shutdownJoin _ _ => true
| .shutdownClear _ => true
| .destroy => true
| _ => false

/- No call of a shutdown is anywhere. -/
theorem KWorkerPool.Open.not_shutdown
    {W : Nat}
    {s : KWorkerPool W}
    {l : PoolStep W}
    (hOpen : s.Open)
    (hShutdown : l.isShutdown = true) :
    ¬ s.Enabled l := by
  intro hEnabled
  have hCall :
      ∀ {c : Nat} {p : ShutdownPhase},
        (s.calls c).phase = p → p = .idle := by
    intro c p hPhase
    have hNone := hOpen.calls
    exact
      hPhase.symm.trans (hOpen.fresh.calls c (by omega))
  cases l with
  | shutdownLock c => cases hCall hEnabled.1
  | shutdownSetFlag c => cases hCall hEnabled
  | shutdownNotifyAll c => cases hCall hEnabled
  | shutdownJoin c w =>
      rcases hEnabled with ⟨⟨n, _, hPhase, _⟩, _⟩
      cases hCall hPhase
  | shutdownClear c =>
      rcases hEnabled with ⟨n, _, hPhase⟩
      cases hCall hPhase
  | destroy =>
      rcases hEnabled with ⟨_, c, _, _, hPhase⟩
      cases hCall hPhase
  | _ => cases hShutdown

end KDoth

------------------------------------------------------------
-- Work
------------------------------------------------------------

namespace KDoth

/- The steps that a worker still takes before it waits. -/
def WorkerPhase.work : WorkerPhase → Nat
| .waiting => 0
| .ended => 0
| .entered => 1
| .reentered => 1
| .loop => 2
| .awake => 2
| .released _ => 3
| .ran _ => 4
| .running _ => 5
| .taken _ => 6

/- And those that a post causes, with so many workers. -/
def PostPhase.work (W : Nat) : PostPhase → Nat
| .idle => 0
| .returned => 0
| .notifying => 2 * W + 1
| .appended => 2 * W + 2
| .locked => 2 * W + 9
| .prepared => 2 * W + 10

namespace PoolStep

variable {W : Nat}

/- What the pool does by itself, or a post under way does. -/
def isOwn : PoolStep W → Bool
| .retain => false
| .release _ => false
| .postBegin _ => false
| .workerSpurious _ => false
| .shutdownBegin _ => false
| _ => true

/- The steps that follow from a step of others. -/
def price : PoolStep W → Nat
| .postBegin _ => 2 * W + 10
| .workerSpurious _ => 2
| _ => 0

end PoolStep

namespace KWorkerPool

variable {W : Nat} {s r : KWorkerPool W} {l : PoolStep W}

/- What the workers and the posts have together. -/
def measured
    (f : WorkerPhase → Nat)
    (g : PostPhase → Nat)
    (s : KWorkerPool W) : Nat :=
  total (fun v : Worker => f v.phase) s.workers +
    ∑ t ∈ Finset.range s.nextTask, g (s.posts t)

/- One worker goes on. -/
theorem measured_of_worker
    (f : WorkerPhase → Nat)
    (g : PostPhase → Nat)
    {w : Fin W}
    {v : Worker}
    (hWorkers : r.workers = Function.update s.workers w v)
    (hPosts : r.posts = s.posts)
    (hNext : r.nextTask = s.nextTask) :
    r.measured f g + f (s.phase w) =
      s.measured f g + f v.phase := by
  have hTotal :=
    total_update (fun v : Worker => f v.phase) s.workers w v
  unfold measured KWorkerPool.phase
  rw [hWorkers, hPosts, hNext]
  omega

/- One post goes on, and may wake workers. -/
theorem measured_of_post
    (f : WorkerPhase → Nat)
    (g : PostPhase → Nat)
    {t : Nat}
    {p : PostPhase}
    (hPosts : r.posts = Function.update s.posts t p)
    (hNext : r.nextTask = s.nextTask)
    (hLess : t < s.nextTask) :
    r.measured f g + g (s.posts t) +
        total (fun v : Worker => f v.phase) s.workers =
      s.measured f g + g p +
        total (fun v : Worker => f v.phase) r.workers := by
  have hSum :=
    sum_update_add g s.posts (Finset.mem_range.mpr hLess) p
  unfold measured
  rw [hPosts, hNext]
  omega

/- A new post. -/
theorem measured_of_begin
    (f : WorkerPhase → Nat)
    (g : PostPhase → Nat)
    (s : KWorkerPool W)
    (o : Option UserData) :
    (s.next (.postBegin o)).measured f g =
      s.measured f g + g .prepared := by
  have hSelf :
      (s.next (.postBegin o)).posts s.nextTask = .prepared :=
    Function.update_self ..
  have hOthers :
      ∑ t ∈ Finset.range s.nextTask,
          g ((s.next (.postBegin o)).posts t) =
        ∑ t ∈ Finset.range s.nextTask, g (s.posts t) := by
    apply Finset.sum_congr rfl
    intro t hMem
    have hNe : t ≠ s.nextTask :=
      ne_of_lt (Finset.mem_range.mp hMem)
    have hPost :
        (s.next (.postBegin o)).posts t = s.posts t :=
      Function.update_of_ne hNe ..
    rw [hPost]
  have hSum :
      ∑ t ∈ Finset.range (s.nextTask + 1),
          g ((s.next (.postBegin o)).posts t) =
        ∑ t ∈ Finset.range s.nextTask, g (s.posts t) +
          g .prepared := by
    rw [Finset.sum_range_succ, hOthers, hSelf]
  have hWorkers :
      (s.next (.postBegin o)).workers = s.workers := rfl
  have hNext :
      (s.next (.postBegin o)).nextTask = s.nextTask + 1 := rfl
  unfold measured
  rw [hWorkers, hNext, hSum]
  omega

/- Where neither the workers nor the posts are changed. -/
theorem measured_of_same
    (f : WorkerPhase → Nat)
    (g : PostPhase → Nat)
    (hWorkers : r.workers = s.workers)
    (hPosts : r.posts = s.posts)
    (hNext : r.nextTask = s.nextTask) :
    r.measured f g = s.measured f g := by
  unfold measured
  rw [hWorkers, hPosts, hNext]

/- The steps that the pool still takes before it is at rest. -/
def work (s : KWorkerPool W) : Nat :=
  6 * s.tasks.length +
    s.measured WorkerPhase.work (PostPhase.work W)

/- One worker goes on. -/
theorem work_of_worker
    {w : Fin W}
    {v : Worker}
    (hWorkers : r.workers = Function.update s.workers w v)
    (hPosts : r.posts = s.posts)
    (hNext : r.nextTask = s.nextTask) :
    r.work + 6 * s.tasks.length + (s.phase w).work =
      s.work + 6 * r.tasks.length + v.phase.work := by
  have hMeasured :=
    measured_of_worker WorkerPhase.work (PostPhase.work W)
      hWorkers hPosts hNext
  unfold work
  omega

/- One post goes on, and wakes workers. -/
theorem work_of_post
    {t : Nat}
    {p : PostPhase}
    (k : Nat)
    (hPosts : r.posts = Function.update s.posts t p)
    (hNext : r.nextTask = s.nextTask)
    (hLess : t < s.nextTask)
    (hWorkers :
      total (fun v : Worker => v.phase.work) r.workers ≤
        total (fun v : Worker => v.phase.work) s.workers + k) :
    r.work + 6 * s.tasks.length + (s.posts t).work W ≤
      s.work + 6 * r.tasks.length + p.work W + k := by
  have hMeasured :=
    measured_of_post WorkerPhase.work (PostPhase.work W)
      hPosts hNext hLess
  unfold work
  omega

/- Where neither the workers nor the posts are changed. -/
theorem work_of_same
    (hTasks : r.tasks = s.tasks)
    (hWorkers : r.workers = s.workers)
    (hPosts : r.posts = s.posts)
    (hNext : r.nextTask = s.nextTask) :
    r.work = s.work := by
  unfold work
  rw [hTasks, measured_of_same _ _ hWorkers hPosts hNext]

/- A post that is under way has a number. -/
theorem Open.lt_of_post
    (hOpen : s.Open)
    {t : Nat}
    {p : PostPhase}
    (hPhase : s.posts t = p)
    (hBegun : p ≠ .idle) :
    t < s.nextTask := by
  by_contra hNot
  have hIdle := hOpen.fresh.posts t (by omega)
  exact hBegun (hPhase.symm.trans hIdle)

/- A critical section changes the worker that is in it. -/
theorem workers_of_checks
    {w : Fin W}
    {isRunning : Bool}
    (hChecks : s.Checks l w isRunning) :
    (s.next l).workers =
      Function.update s.workers w ((s.next l).workers w) := by
  funext v
  by_cases hSelf : v = w
  · subst hSelf
    rw [Function.update_self]
  · rw [Function.update_of_ne hSelf]
    rcases hChecks with ⟨rfl, _⟩ | ⟨rfl, _⟩
    · exact
        ((s.readFlag w).waitOrTake_of_ne hSelf).trans
          (Function.update_of_ne hSelf ..)
    · exact s.waitOrTake_of_ne hSelf

/- A worker that finds no task waits. -/
theorem waits_of_checks
    {w : Fin W}
    {isRunning : Bool}
    (hChecks : s.Checks l w isRunning)
    (hTasks : s.tasks = [])
    (hFlag : s.shutdown = false) :
    (s.next l).tasks = [] ∧ (s.next l).phase w = .waiting := by
  rcases hChecks with ⟨rfl, _⟩ | ⟨rfl, _⟩
  · have hBoth :
        (s.readFlag w).tasks = [] ∧
          (s.readFlag w).shutdown = false := ⟨hTasks, hFlag⟩
    rw [next, waitOrTake, if_pos hBoth]
    refine ⟨hTasks, ?_⟩
    exact (phase_setPhase ..).trans (if_pos rfl)
  · rw [next, waitOrTake, if_pos ⟨hTasks, hFlag⟩]
    refine ⟨hTasks, ?_⟩
    exact (phase_setPhase ..).trans (if_pos rfl)

theorem frame_of_checks
    {w : Fin W}
    {isRunning : Bool}
    (hChecks : s.Checks l w isRunning) :
    (s.next l).posts = s.posts ∧
      (s.next l).nextTask = s.nextTask := by
  rcases hChecks with ⟨rfl, _⟩ | ⟨rfl, _⟩
  · rcases s.next_workerEnter w with ⟨workers, tasks, d, hEq⟩
    rw [hEq]
    exact ⟨rfl, rfl⟩
  · rcases s.next_workerRecheck w with ⟨workers, tasks, d, hEq⟩
    rw [hEq]
    exact ⟨rfl, rfl⟩

/- A critical section of a worker is a step of its work. -/
theorem work_of_checks
    {w : Fin W}
    {isRunning : Bool}
    (hFlag : s.shutdown = false)
    (hChecks : s.Checks l w isRunning) :
    (s.next l).work + 1 ≤ s.work := by
  rcases frame_of_checks hChecks with ⟨hPosts, hNext⟩
  have hWork :=
    work_of_worker (workers_of_checks hChecks) hPosts hNext
  have hBefore : (s.phase w).work = 1 := by
    rcases hChecks with ⟨_, hPhase, _⟩ | ⟨_, hPhase, _⟩ <;>
      rw [hPhase] <;> rfl
  cases hTasks : s.tasks with
  | nil =>
      rcases waits_of_checks hChecks hTasks hFlag with
        ⟨hAfter, hWaits⟩
      have hZero : ((s.next l).workers w).phase.work = 0 :=
        congrArg WorkerPhase.work hWaits
      rw [hBefore, hZero, hTasks, hAfter] at hWork
      omega
  | cons t rest =>
      rcases takes_of_checks hChecks hTasks with
        ⟨hAfter, _, hTaken⟩
      have hSix : ((s.next l).workers w).phase.work = 6 := by
        rw [hTaken]
        rfl
      rw [hBefore, hSix, hTasks, hAfter, List.length_cons]
        at hWork
      omega

/- Each worker that is woken has two steps to go. -/
theorem total_of_wake
    (woken : Fin W → Bool) :
    total (fun v : Worker => v.phase.work)
        (s.wake woken).workers ≤
      total (fun v : Worker => v.phase.work) s.workers +
        2 * W := by
  have hMost :
      total (fun v : Worker => v.phase.work)
          (s.wake woken).workers ≤
        total (fun v : Worker => v.phase.work) s.workers +
          2 * Fintype.card (Fin W) := by
    apply total_le_add
    intro w
    rcases s.wake_cases woken w with hSame | ⟨_, hNew⟩
    · rw [hSame]
      exact Nat.le_add_right ..
    · rw [hNew]
      exact Nat.le_add_left ..
  rwa [Fintype.card_fin] at hMost

/- A new post. -/
theorem work_of_begin
    (o : Option UserData) :
    (s.next (.postBegin o)).work = s.work + (2 * W + 10) := by
  have hMeasured :=
    s.measured_of_begin WorkerPhase.work (PostPhase.work W) o
  have hTasks : (s.next (.postBegin o)).tasks = s.tasks := rfl
  unfold work
  rw [hMeasured, hTasks]
  exact (Nat.add_assoc ..).symm

/- A worker goes on outside of the critical section. -/
theorem work_of_goes
    {w : Fin W}
    {p : WorkerPhase}
    (hWorkers : (s.next l).workers = (s.setPhase w p).workers)
    (hTasks : (s.next l).tasks = s.tasks)
    (hPosts : (s.next l).posts = s.posts)
    (hNext : (s.next l).nextTask = s.nextTask)
    (hLess : p.work + 1 ≤ (s.phase w).work) :
    (s.next l).work + 1 ≤ s.work := by
  have hWork := work_of_worker hWorkers hPosts hNext
  rw [hTasks] at hWork
  change
    _ + 6 * s.tasks.length + (s.phase w).work =
      s.work + 6 * s.tasks.length + p.work at hWork
  omega

/- A post goes on and wakes nobody. -/
theorem work_of_posts
    {t : Nat}
    {p : PostPhase}
    (hPosts : (s.next l).posts = Function.update s.posts t p)
    (hNext : (s.next l).nextTask = s.nextTask)
    (hWorkers : (s.next l).workers = s.workers)
    (hLess : t < s.nextTask)
    (hPaid :
      6 * (s.next l).tasks.length + p.work W + 1 ≤
        6 * s.tasks.length + (s.posts t).work W) :
    (s.next l).work + 1 ≤ s.work := by
  have hWork :=
    work_of_post 0 hPosts hNext hLess (by rw [hWorkers]; rfl)
  omega

/-
  Every step of the pool brings its work down, and other
  steps pay for what they add to it.
-/
theorem work_next
    (hOpen : s.Open)
    (hEnabled : s.Enabled l) :
    (s.next l).work + l.isOwn.toNat ≤ s.work + l.price := by
  cases l with
  | retain => exact le_of_eq (work_of_same rfl rfl rfl rfl)
  | release actor =>
      rcases s.next_release actor with
        ⟨calls, n, d, hEq⟩
      rw [hEq]
      exact le_of_eq (work_of_same rfl rfl rfl rfl)
  | shutdownBegin caller =>
      exact le_of_eq (work_of_same rfl rfl rfl rfl)
  | postBegin o => exact le_of_eq (work_of_begin o)
  | postLock t =>
      have hLess := hOpen.lt_of_post hEnabled.1 nofun
      apply work_of_posts (l := .postLock t) rfl rfl rfl hLess
      rw [hEnabled.1]
      exact le_rfl
  | postAppend t =>
      have hLocked : s.posts t = .locked := hEnabled
      have hLess := hOpen.lt_of_post hLocked nofun
      apply work_of_posts (l := .postAppend t) rfl rfl rfl hLess
      have hLength :
          (s.next (.postAppend t)).tasks.length =
            s.tasks.length + 1 := List.length_append
      rw [hLocked, hLength]
      simp only [PostPhase.work]
      omega
  | postReleaseTask t =>
      have hAppended : s.posts t = .appended := hEnabled
      have hLess := hOpen.lt_of_post hAppended nofun
      apply work_of_posts (l := .postReleaseTask t)
        rfl rfl rfl hLess
      rw [hAppended]
      exact le_rfl
  | postNotify t woken =>
      have hLess := hOpen.lt_of_post hEnabled.1 nofun
      have hWork :=
        work_of_post (s := s)
          (r := s.next (.postNotify t woken)) (2 * W)
          rfl rfl hLess (total_of_wake woken)
      have hTasks :
          (s.next (.postNotify t woken)).tasks = s.tasks := rfl
      rw [hEnabled.1, hTasks] at hWork
      simp only [PostPhase.work] at hWork
      change _ + 1 ≤ s.work + 0
      omega
  | workerSpurious w =>
      have hWork :=
        work_of_worker (s := s) (w := w)
          (r := s.next (.workerSpurious w)) rfl rfl rfl
      have hWaits : s.phase w = .waiting := hEnabled
      have hTasks :
          (s.next (.workerSpurious w)).tasks = s.tasks := rfl
      rw [hWaits, hTasks] at hWork
      simp only [WorkerPhase.work] at hWork
      change _ + 0 ≤ s.work + 2
      omega
  | workerEnter w =>
      exact
        work_of_checks hOpen.shutdown_eq
          (.inl ⟨rfl, hEnabled, rfl⟩)
  | workerRecheck w =>
      exact
        work_of_checks hOpen.shutdown_eq
          (.inr ⟨rfl, hEnabled, rfl⟩)
  | workerLock w =>
      apply work_of_goes (s := s) (w := w)
        (l := .workerLock w) rfl rfl rfl rfl
      rw [hEnabled.1]
      exact le_rfl
  | workerRelock w =>
      apply work_of_goes (s := s) (w := w)
        (l := .workerRelock w) rfl rfl rfl rfl
      rw [hEnabled.1]
      exact le_rfl
  | workerStart w t =>
      have hTaken : s.phase w = .taken t := hEnabled
      apply work_of_goes (s := s) (w := w)
        (l := .workerStart w t) rfl rfl rfl rfl
      rw [hTaken]
      exact le_rfl
  | workerFinish w t =>
      apply work_of_goes (s := s) (w := w)
        (l := .workerFinish w t) rfl rfl rfl rfl
      rw [hEnabled.1]
      exact le_rfl
  | workerReleaseUserData w t =>
      rcases s.next_workerReleaseUserData w t with
        ⟨p, calls, n, d, hEq⟩
      apply
        work_of_goes (l := .workerReleaseUserData w t) (w := w)
          (by rw [hEq]; rfl) (by rw [hEq]; rfl)
          (by rw [hEq]; rfl) (by rw [hEq]; rfl)
      rw [hEnabled.1]
      exact le_rfl
  | workerReleaseTask w t =>
      apply work_of_goes (s := s) (w := w)
        (l := .workerReleaseTask w t) rfl rfl rfl rfl
      rw [hEnabled.1]
      split <;> exact Nat.le_of_ble_eq_true rfl
  | shutdownLock c
  | shutdownSetFlag c
  | shutdownNotifyAll c
  | shutdownJoin c w
  | shutdownClear c
  | destroy =>
      exact absurd hEnabled (hOpen.not_shutdown rfl)

end KWorkerPool

end KDoth

------------------------------------------------------------
-- Paying For Steps
------------------------------------------------------------

namespace KDoth

namespace KWorkerPool

variable {W : Nat} {s : KWorkerPool W}

/- At the start each worker is about to wait. -/
theorem work_new : (new W).work = 2 * W := by
  have hTotal :
      total (fun v : Worker => v.phase.work) (new W).workers =
        W * 2 := by
    have hSum :=
      Finset.sum_const_nat (s := Finset.univ (α := Fin W))
        (m := 2)
        (f := fun w => ((new W).workers w).phase.work)
        fun _ _ => rfl
    rwa [Finset.card_univ, Fintype.card_fin] at hSum
  unfold work measured
  rw [hTotal]
  show 6 * 0 + (W * 2 + 0) = 2 * W
  omega

/- Without a call in the end there was none before. -/
theorem nextCall_back
    {r : KWorkerPool W}
    {l : PoolStep W}
    (hStep : (workerPool W).step s l = some r)
    (hNone : r.nextCall = 0) :
    s.nextCall = 0 := by
  rcases step_inv hStep with ⟨_, rfl⟩
  have hMore := nextCall_le (s := s) (l := l)
  omega

/- The steps of the pool are those that were paid for. -/
theorem countP_isOwn_le
    (hPos : 0 < W)
    {ls : List (PoolStep W)}
    (hExec : (workerPool W).exec (new W) ls = some s)
    (hNone : s.nextCall = 0) :
    ls.countP PoolStep.isOwn ≤
      2 * W + (ls.map PoolStep.price).sum := by
  have hMeets :=
    TransitionSystem.execMeets_of_end
      (fun s : KWorkerPool W => s.nextCall = 0)
      (fun _ _ _ => nextCall_back) hExec hNone
  have hCount :=
    TransitionSystem.countP_add_rank_le
      (workerPool W).Reachable work PoolStep.isOwn
      PoolStep.price
      (by
        intro s l r hReach hOpen hStep
        refine ⟨hReach.step trivial hStep, ?_⟩
        rcases step_inv hStep with ⟨hEnabled, rfl⟩
        exact
          work_next (.of_reachable hPos hReach hOpen) hEnabled)
      (.init rfl) hMeets.2 hExec
  rw [work_new] at hCount
  omega

end KWorkerPool

end KDoth
