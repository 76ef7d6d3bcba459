import Mathlib.Data.Fintype.Pi
import KDoth.Foundations.TransitionSystem

/-
  The worker pool as a transition system over its posters,
  its workers and the callers of its shutdown. The body of a
  critical section is one step, taken while the mutex is held
  and giving it up at its end.

  Key definitions include:
    * `KWorkerPoolTask`
    * `WorkerPhase`
    * `PostPhase`
    * `ShutdownPhase`
    * `KWorkerPool`
    * `KWorkerPool.new`
    * `PoolStep`
    * `KWorkerPool.Enabled`
    * `KWorkerPool.next`
    * `workerPool`

  Key theorems include:
    * `KWorkerPool.step_inv`
    * `KWorkerPool.waitOrTake_cases`
-/

------------------------------------------------------------
-- State
------------------------------------------------------------

namespace KDoth

/- What is posted with a task: the pool or another object. -/
inductive UserData where
  | pool
  | object (address : Nat)
deriving DecidableEq

/- A task, whose procedure pointer is only tested for NULL. -/
structure KWorkerPoolTask where
  task : Bool
  userData : Option UserData
  refCount : Nat
deriving DecidableEq

/-
  Where a worker is in its main function. Tasks are named by
  the order in which posts begin.
-/
inductive WorkerPhase where
  /- About to enter the critical section. -/
  | loop
  /- In the critical section, before the flag is read. -/
  | entered
  /- Blocked on the condition variable. -/
  | waiting
  /- Woken, without the mutex. -/
  | awake
  /- Woken, with the mutex. -/
  | reentered
  /- Out of the critical section with a task. -/
  | taken (t : Nat)
  | running (t : Nat)
  | ran (t : Nat)
  | released (t : Nat)
  | ended
deriving DecidableEq

structure Worker where
  phase : WorkerPhase
  isRunning : Bool
deriving DecidableEq

/- Where a call of `KWorkerPoolPostTask` is. -/
inductive PostPhase where
  | idle
  | prepared
  | locked
  | appended
  | notifying
  | returned
deriving DecidableEq

/- Where a call of `KWorkerPoolShutdown` is. -/
inductive ShutdownPhase where
  | idle
  | entering
  | locked
  | notifying
  | joining (index count : Nat)
  | returned
deriving DecidableEq

/- A call, by a worker or by a thread outside the pool. -/
structure ShutdownCall (W : Nat) where
  caller : Option (Fin W)
  phase : ShutdownPhase
deriving DecidableEq

inductive MutexOwner (W : Nat) where
  | worker (w : Fin W)
  | poster (t : Nat)
  | shutdown (c : Nat)
deriving DecidableEq

/-
  The pool with the threads that use it. References to the
  pool are held by clients or, as the user data of a task, by
  the pool itself. The last seven fields only record what has
  happened, the first of them the user data of each post.
-/
structure KWorkerPool (W : Nat) where
  clients : Nat
  pinned : Nat
  mutex : Option (MutexOwner W)
  shutdown : Bool
  tasks : List Nat
  workers : Fin W → Worker
  /- The array of threads was emptied. -/
  cleared : Bool
  joined : Fin W → Bool
  task : Nat → KWorkerPoolTask
  posts : Nat → PostPhase
  nextTask : Nat
  calls : Nat → ShutdownCall W
  nextCall : Nat
  deInit : Option Nat
  destroyed : Bool
  given : Nat → Option UserData
  accepted : List Nat
  dequeued : List (Nat × Fin W)
  executed : List Nat
  dropped : List Nat
  retained : List (Nat × UserData)
  released : List (Nat × UserData)

end KDoth

------------------------------------------------------------
-- Operations
------------------------------------------------------------

namespace KDoth

namespace KWorkerPoolTask

/-
  `KObjectRelease` on a task. The warning about a task that
  was not executed is not recorded.
-/
def release (task : KWorkerPoolTask) : KWorkerPoolTask :=
  if task.refCount = 1 then
    { task := false, userData := none, refCount := 0 }
  else
    { task with refCount := task.refCount - 1 }

/- The user data that a last release gives up. -/
def lastRelease
    (task : KWorkerPoolTask)
    (t : Nat) : List (Nat × UserData) :=
  if task.refCount = 1 then
    task.userData.toList.map (fun o => (t, o))
  else
    []

end KWorkerPoolTask

namespace WorkerPhase

/- The procedure or a deinitializer of user data runs. -/
def inTask : WorkerPhase → Bool
| running _ => true
| ran _ => true
| _ => false

end WorkerPhase

namespace ShutdownPhase

/- In the join of the thread at an index. -/
def joins : ShutdownPhase → Nat → Bool
| joining index _, i => index == i
| _, _ => false

end ShutdownPhase

namespace KWorkerPool

variable {W : Nat}

def refCount (s : KWorkerPool W) : Nat :=
  s.clients + s.pinned

/- The pool that `KWorkerPoolNew` returns. -/
def new (W : Nat) : KWorkerPool W where
  clients := 1
  pinned := 0
  mutex := none
  shutdown := false
  tasks := []
  workers := fun _ => { phase := .loop, isRunning := true }
  cleared := false
  joined := fun _ => false
  task := fun _ =>
    { task := false, userData := none, refCount := 0 }
  posts := fun _ => .idle
  nextTask := 0
  calls := fun _ => { caller := none, phase := .idle }
  nextCall := 0
  deInit := none
  destroyed := false
  given := fun _ => none
  accepted := []
  dequeued := []
  executed := []
  dropped := []
  retained := []
  released := []

def phase (s : KWorkerPool W) (w : Fin W) : WorkerPhase :=
  (s.workers w).phase

def setPhase
    (s : KWorkerPool W)
    (w : Fin W)
    (phase : WorkerPhase) : KWorkerPool W :=
  { s with
    workers :=
      Function.update s.workers w
        { s.workers w with phase := phase } }

def setPost
    (s : KWorkerPool W)
    (t : Nat)
    (phase : PostPhase) : KWorkerPool W :=
  { s with posts := Function.update s.posts t phase }

def setCall
    (s : KWorkerPool W)
    (c : Nat)
    (phase : ShutdownPhase) : KWorkerPool W :=
  { s with
    calls :=
      Function.update s.calls c
        { s.calls c with phase := phase } }

def setMutex
    (s : KWorkerPool W)
    (owner : Option (MutexOwner W)) : KWorkerPool W :=
  { s with mutex := owner }

/- Move blocked workers out of the wait. -/
def wake
    (s : KWorkerPool W)
    (woken : Fin W → Bool) : KWorkerPool W :=
  { s with
    workers := fun w =>
      if woken w = true then
        { s.workers w with phase := .awake }
      else
        s.workers w }

/- A call of `KWorkerPoolShutdown` begins. -/
def beginCall
    (s : KWorkerPool W)
    (caller : Option (Fin W)) : KWorkerPool W :=
  { s with
    calls :=
      Function.update s.calls s.nextCall
        { caller := caller, phase := .entering }
    nextCall := s.nextCall + 1 }

/- Giving up the last reference runs `KWorkerPoolDeInit`. -/
def deInitIfLast
    (s : KWorkerPool W)
    (actor : Option (Fin W)) : KWorkerPool W :=
  if s.refCount = 0 then
    { s.beginCall actor with deInit := some s.nextCall }
  else
    s

/-
  `KWorkerPoolTaskRelease`. What the release of the last
  reference does in `KWorkerPoolTaskDeInit` is in the task.
-/
def releaseTask
    (s : KWorkerPool W)
    (t : Nat) : KWorkerPool W :=
  { s with
    task := Function.update s.task t (s.task t).release
    released := s.released ++ (s.task t).lastRelease t }

/-
  The removal of the first task from the list. Without a task
  the worker is at the head of its loop again.
-/
def take (s : KWorkerPool W) (w : Fin W) : KWorkerPool W :=
  match s.tasks with
  | [] =>
      s.setPhase w
        (if (s.workers w).isRunning = true then .loop
        else .ended)
  | t :: rest =>
      { s.setPhase w (.taken t) with
        tasks := rest
        dequeued := s.dequeued ++ [(t, w)] }

/-
  The rest of the critical section from the test of
  `KWorkerPoolCVPredicate` on. A blocked worker gives up the
  mutex as well.
-/
def waitOrTake
    (s : KWorkerPool W)
    (w : Fin W) : KWorkerPool W :=
  if s.tasks = [] ∧ s.shutdown = false then
    s.setPhase w .waiting
  else
    s.take w

/- `is_running` is cleared when the flag is found set. -/
def readFlag
    (s : KWorkerPool W)
    (w : Fin W) : KWorkerPool W :=
  { s with
    workers :=
      Function.update s.workers w
        { s.workers w with
          isRunning :=
            (s.workers w).isRunning && !s.shutdown } }

/- The task is left without procedure and user data. -/
def clearTask
    (s : KWorkerPool W)
    (w : Fin W)
    (t : Nat) : KWorkerPool W :=
  { s.setPhase w (.released t) with
    task :=
      Function.update s.task t
        { s.task t with task := false, userData := none }
    released :=
      s.released ++
        (s.task t).userData.toList.map (fun o => (t, o)) }

/-
  The release of the user data by `KWorkerPoolTaskExecute`.
  User data that is the pool may be its last holder.
-/
def releaseUserData
    (s : KWorkerPool W)
    (w : Fin W)
    (t : Nat) : KWorkerPool W :=
  if (s.task t).userData = some .pool then
    { s.clearTask w t with
      pinned := s.pinned - 1 }.deInitIfLast (some w)
  else
    s.clearTask w t

/-
  The members are released after the shutdown, and with the
  list every task that is still in it. The user data of these
  is not the pool: it would still have a reference.
-/
def destroy (s : KWorkerPool W) : KWorkerPool W :=
  { s with
    tasks := []
    task := fun t =>
      if t ∈ s.tasks then (s.task t).release else s.task t
    released :=
      s.released ++
        s.tasks.flatMap (fun t => (s.task t).lastRelease t)
    dropped := s.tasks
    destroyed := true }

end KWorkerPool

end KDoth

------------------------------------------------------------
-- Steps
------------------------------------------------------------

namespace KDoth

/- The steps of clients, posters, workers and shutdowns. -/
inductive PoolStep (W : Nat) where
  | retain
  | release (actor : Option (Fin W))
  | postBegin (userData : Option UserData)
  | postLock (t : Nat)
  | postAppend (t : Nat)
  | postReleaseTask (t : Nat)
  | postNotify (t : Nat) (woken : Fin W → Bool)
  | workerLock (w : Fin W)
  | workerEnter (w : Fin W)
  | workerSpurious (w : Fin W)
  | workerRelock (w : Fin W)
  | workerRecheck (w : Fin W)
  | workerStart (w : Fin W) (t : Nat)
  | workerFinish (w : Fin W) (t : Nat)
  | workerReleaseUserData (w : Fin W) (t : Nat)
  | workerReleaseTask (w : Fin W) (t : Nat)
  | shutdownBegin (caller : Option (Fin W))
  | shutdownLock (c : Nat)
  | shutdownSetFlag (c : Nat)
  | shutdownNotifyAll (c : Nat)
  | shutdownJoin (c : Nat) (w : Fin W)
  | shutdownClear (c : Nat)
  | destroy

namespace KWorkerPool

variable {W : Nat}

/- Not inside a shutdown or deinitialization of its own. -/
def Free (s : KWorkerPool W) (w : Fin W) : Prop :=
  ∀ c < s.nextCall,
    (s.calls c).caller = some w →
      (s.calls c).phase = .returned ∧
        (s.deInit = some c → s.destroyed = true)

/- No call on the pool is in progress. -/
def Quiet (s : KWorkerPool W) : Prop :=
  (∀ t < s.nextTask, s.posts t = .returned) ∧
    ∀ c < s.nextCall, (s.calls c).phase = .returned

/-
  The code that runs on a worker is that of a task. Other
  code runs on threads outside the pool.
-/
def Acts (s : KWorkerPool W) : Option (Fin W) → Prop
| none => True
| some w => (s.phase w).inTask = true ∧ s.Free w

/-
  `KThreadJoin` returns: for no thread, for one that was
  joined or has ended, and at once for the calling thread.
  Joining a thread that another call is joining has no
  defined result and may return at once as well.
-/
def JoinReturns
    (s : KWorkerPool W)
    (c : Nat)
    (w : Fin W) : Prop :=
  s.cleared = true ∨ s.joined w = true ∨
    s.phase w = .ended ∨ (s.calls c).caller = some w ∨
      ∃ d < s.nextCall,
        d ≠ c ∧ (s.calls d).phase.joins w.val = true

/-
  When a step can be taken. A call on the pool is made by a
  holder of a reference, which keeps it until the call
  returns.
-/
def Enabled (s : KWorkerPool W) : PoolStep W → Prop
| .retain => 0 < s.refCount
| .release actor =>
    0 < s.clients ∧ (s.refCount = 1 → s.Quiet) ∧ s.Acts actor
| .postBegin _ => 0 < s.refCount
| .postLock t => s.posts t = .prepared ∧ s.mutex = none
| .postAppend t => s.posts t = .locked
| .postReleaseTask t => s.posts t = .appended
| .postNotify t woken =>
    s.posts t = .notifying ∧
      (∀ w, woken w = true → s.phase w = .waiting) ∧
        ((∃ w, s.phase w = .waiting) → ∃ w, woken w = true)
| .workerLock w => s.phase w = .loop ∧ s.mutex = none
| .workerEnter w => s.phase w = .entered
| .workerSpurious w => s.phase w = .waiting
| .workerRelock w => s.phase w = .awake ∧ s.mutex = none
| .workerRecheck w => s.phase w = .reentered
| .workerStart w t => s.phase w = .taken t
| .workerFinish w t => s.phase w = .running t ∧ s.Free w
| .workerReleaseUserData w t =>
    s.phase w = .ran t ∧ s.Free w ∧
      ((s.task t).userData = some .pool →
        0 < s.pinned ∧ (s.refCount = 1 → s.Quiet))
| .workerReleaseTask w t => s.phase w = .released t ∧ s.Free w
| .shutdownBegin caller => 0 < s.refCount ∧ s.Acts caller
| .shutdownLock c =>
    (s.calls c).phase = .entering ∧ s.mutex = none
| .shutdownSetFlag c => (s.calls c).phase = .locked
| .shutdownNotifyAll c => (s.calls c).phase = .notifying
| .shutdownJoin c w =>
    (∃ n ≤ W,
      (s.calls c).phase = .joining w.val n ∧ w.val < n) ∧
      s.JoinReturns c w
| .shutdownClear c =>
    ∃ n ≤ W, (s.calls c).phase = .joining n n
| .destroy =>
    s.destroyed = false ∧
      ∃ c < s.nextCall,
        s.deInit = some c ∧ (s.calls c).phase = .returned

/- The state after an enabled step. -/
def next (s : KWorkerPool W) : PoolStep W → KWorkerPool W
| .retain => { s with clients := s.clients + 1 }
| .release actor =>
    { s with clients := s.clients - 1 }.deInitIfLast actor
| .postBegin userData =>
    { s with
      task :=
        Function.update s.task s.nextTask
          { task := true, userData := userData, refCount := 1 }
      given := Function.update s.given s.nextTask userData
      posts := Function.update s.posts s.nextTask .prepared
      nextTask := s.nextTask + 1
      pinned :=
        s.pinned + (if userData = some .pool then 1 else 0)
      retained :=
        s.retained ++
          userData.toList.map (fun o => (s.nextTask, o)) }
| .postLock t =>
    (s.setPost t .locked).setMutex (some (.poster t))
| .postAppend t =>
    { (s.setPost t .appended).setMutex none with
      tasks := s.tasks ++ [t]
      accepted := s.accepted ++ [t]
      task :=
        Function.update s.task t
          { s.task t with
            refCount := (s.task t).refCount + 1 } }
| .postReleaseTask t =>
    (s.releaseTask t).setPost t .notifying
| .postNotify t woken =>
    (s.wake woken).setPost t .returned
| .workerLock w =>
    (s.setPhase w .entered).setMutex (some (.worker w))
| .workerEnter w =>
    ((s.readFlag w).waitOrTake w).setMutex none
| .workerSpurious w => s.setPhase w .awake
| .workerRelock w =>
    (s.setPhase w .reentered).setMutex (some (.worker w))
| .workerRecheck w => (s.waitOrTake w).setMutex none
| .workerStart w t => s.setPhase w (.running t)
| .workerFinish w t =>
    { s.setPhase w (.ran t) with
      executed := s.executed ++ [t] }
| .workerReleaseUserData w t => s.releaseUserData w t
| .workerReleaseTask w t =>
    (s.releaseTask t).setPhase w
      (if (s.workers w).isRunning = true then .loop
      else .ended)
| .shutdownBegin caller => s.beginCall caller
| .shutdownLock c =>
    (s.setCall c .locked).setMutex (some (.shutdown c))
| .shutdownSetFlag c =>
    { (s.setCall c .notifying).setMutex none with
      shutdown := true }
| .shutdownNotifyAll c =>
    (s.wake (fun w => s.phase w == .waiting)).setCall c
      (.joining 0 (if s.cleared = true then 0 else W))
| .shutdownJoin c w =>
    { s.setCall c
        (match (s.calls c).phase with
        | .joining _ n => .joining (w.val + 1) n
        | other => other) with
      joined :=
        if s.cleared = true then s.joined
        else Function.update s.joined w true }
| .shutdownClear c =>
    { s.setCall c .returned with cleared := true }
| .destroy => s.destroy

instance
    (s : KWorkerPool W)
    (w : Fin W) :
    Decidable (s.Free w) := by
  unfold Free
  infer_instance

instance (s : KWorkerPool W) : Decidable s.Quiet := by
  unfold Quiet
  infer_instance

instance
    (s : KWorkerPool W)
    (actor : Option (Fin W)) :
    Decidable (s.Acts actor) := by
  cases actor <;> unfold Acts <;> infer_instance

instance
    (s : KWorkerPool W)
    (c : Nat)
    (w : Fin W) :
    Decidable (s.JoinReturns c w) := by
  unfold JoinReturns
  infer_instance

instance
    (s : KWorkerPool W)
    (l : PoolStep W) :
    Decidable (s.Enabled l) := by
  cases l <;> unfold Enabled <;> infer_instance

end KWorkerPool

/- The pool with any number of posters and shutdown calls. -/
def workerPool (W : Nat) :
    TransitionSystem (KWorkerPool W) (PoolStep W) where
  Init s := s = KWorkerPool.new W
  step s l := if s.Enabled l then some (s.next l) else none

namespace KWorkerPool

variable {W : Nat}

/- A step is enabled and leads to the state after it. -/
theorem step_inv
    {s s' : KWorkerPool W}
    {l : PoolStep W}
    (hStep : (workerPool W).step s l = some s') :
    s.Enabled l ∧ s' = s.next l := by
  by_cases hEnabled : s.Enabled l
  · simp only [workerPool, if_pos hEnabled,
      Option.some.injEq] at hStep
    exact ⟨hEnabled, hStep.symm⟩
  · simp [workerPool, if_neg hEnabled] at hStep

end KWorkerPool

end KDoth

------------------------------------------------------------
-- Effects of the Operations
------------------------------------------------------------

namespace KDoth

namespace KWorkerPool

variable {W : Nat}

@[simp]
theorem phase_setPhase
    (s : KWorkerPool W)
    (w : Fin W)
    (phase : WorkerPhase)
    (v : Fin W) :
    (s.setPhase w phase).phase v =
      if v = w then phase else s.phase v := by
  unfold setPhase KWorkerPool.phase
  by_cases hEq : v = w
  · subst hEq
    simp
  · simp [hEq]

@[simp]
theorem phase_wake
    (s : KWorkerPool W)
    (woken : Fin W → Bool)
    (v : Fin W) :
    (s.wake woken).phase v =
      if woken v = true then .awake else s.phase v := by
  unfold wake KWorkerPool.phase
  by_cases hWoken : woken v = true
  · simp [hWoken]
  · simp [hWoken]

@[simp]
theorem phase_readFlag
    (s : KWorkerPool W)
    (w v : Fin W) :
    (s.readFlag w).phase v = s.phase v := by
  unfold readFlag KWorkerPool.phase
  by_cases hEq : v = w
  · subst hEq
    simp
  · simp [hEq]

/-
  After the predicate a worker blocks, goes around its loop
  without a task, or leaves with the first task of the list.
-/
theorem waitOrTake_cases
    (s : KWorkerPool W)
    (w : Fin W) :
    (s.tasks = [] ∧ s.shutdown = false ∧
        s.waitOrTake w = s.setPhase w .waiting) ∨
      (s.tasks = [] ∧ s.shutdown = true ∧
        s.waitOrTake w =
          s.setPhase w
            (if (s.workers w).isRunning = true then .loop
            else .ended)) ∨
      ∃ t rest,
        s.tasks = t :: rest ∧
          s.waitOrTake w =
            { s.setPhase w (.taken t) with
              tasks := rest
              dequeued := s.dequeued ++ [(t, w)] } := by
  unfold waitOrTake take
  cases hTasks : s.tasks with
  | nil =>
      cases hFlag : s.shutdown with
      | false => simp
      | true => simp
  | cons t rest => simp

/- Nothing happens, or the shutdown of the last release. -/
theorem deInitIfLast_cases
    (s : KWorkerPool W)
    (actor : Option (Fin W)) :
    (s.refCount ≠ 0 ∧ s.deInitIfLast actor = s) ∨
      (s.refCount = 0 ∧
        s.deInitIfLast actor =
          { s.beginCall actor with
            deInit := some s.nextCall }) := by
  unfold deInitIfLast
  by_cases hLast : s.refCount = 0
  · right
    exact ⟨hLast, if_pos hLast⟩
  · left
    exact ⟨hLast, if_neg hLast⟩

/- Only the calls are changed by a deinitialization. -/
theorem deInitIfLast_frame
    (s : KWorkerPool W)
    (actor : Option (Fin W)) :
    ∃ calls nextCall deInit,
      s.deInitIfLast actor =
        { s with
          calls := calls
          nextCall := nextCall
          deInit := deInit } := by
  unfold deInitIfLast
  split
  · exact ⟨_, _, _, rfl⟩
  · exact ⟨s.calls, s.nextCall, s.deInit, rfl⟩

/- What the release of user data does besides. -/
theorem releaseUserData_frame
    (s : KWorkerPool W)
    (w : Fin W)
    (t : Nat) :
    ∃ pinned calls nextCall deInit,
      s.releaseUserData w t =
        { s.clearTask w t with
          pinned := pinned
          calls := calls
          nextCall := nextCall
          deInit := deInit } := by
  unfold releaseUserData
  split
  · rcases deInitIfLast_frame _ (some w) with
      ⟨calls, nextCall, deInit, hEq⟩
    rw [hEq]
    exact ⟨_, calls, nextCall, deInit, rfl⟩
  · exact ⟨s.pinned, s.calls, s.nextCall, s.deInit, rfl⟩

end KWorkerPool

end KDoth
