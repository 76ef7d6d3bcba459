import KDoth.Foundations.TransitionSystem
import KDoth.Threads.StartedThread

/-
  The construction of a worker pool, with the threads that
  are started before it is known whether the pool is complete.

  Key definitions include:
    * `SpawnAnswer`
    * `ConstructionPhase`
    * `PoolConstruction`
    * `PoolConstruction.construct`
    * `PoolConstruction.system`
    * `PoolConstruction.CleansUp`
-/

------------------------------------------------------------
-- The Construction
------------------------------------------------------------

namespace KDoth

/- What `KThreadNew` comes to in an iteration. -/
inductive SpawnAnswer where
  | noObject
  | notCreated
  | created
deriving DecidableEq, Repr

/- Where `KThreadDeInit` returns to. -/
inductive Resume where
  | spawning (i : Nat)
  | clearing (j : Nat)
deriving DecidableEq, Repr

/-
  Where `KWorkerPoolNew` is. Started threads are numbered in
  the order of their start.
-/
inductive ConstructionPhase where
  /- At the head of the loop. -/
  | spawning (i : Nat)
  /- In `KThreadNew`, before the handle is stored. -/
  | storing (i k : Nat)
  /- Before `KArrayAddObject`. -/
  | adding (i k : Nat)
  /- Before `KThreadRelease`. -/
  | releasing (i k : Nat)
  /- In `KThreadDeInit`. -/
  | joining (k : Nat) (resume : Resume)
  /- Before the test of the members. -/
  | testing
  | succeeded
  /- In `KWorkerPoolShutdown`, from `KWorkerPoolDeInit`. -/
  | entering
  | locked
  | notifying
  | iterating (j : Nat)
  | clearing (j : Nat)
  /- Before the members and the memory are given up. -/
  | freeing
  | failed
deriving DecidableEq, Repr

inductive ConstructionActor where
  | constructor
  | thread (k : Nat)
deriving DecidableEq, Repr

/- The pool while it is made, and the threads it started. -/
structure PoolConstruction where
  phase : ConstructionPhase
  started : Nat
  threads : Nat → StartedThread
  workers : List Nat
  shutdown : Bool
  mutex : Option ConstructionActor
  freed : Bool

/- The constructor or a thread goes on, or is woken. -/
inductive ConstructionStep where
  | construct
  | thread (k : Nat)
  | spurious (k : Nat)
deriving DecidableEq, Repr

namespace ConstructionPhase

def resumed : Resume → ConstructionPhase
| .spawning i => .spawning i
| .clearing j => .clearing j

end ConstructionPhase

namespace PoolConstruction

/-
  The pool after its members were made. A worker count of
  zero is turned down before that.
-/
def new (workerCount : Nat) : PoolConstruction where
  phase := if workerCount = 0 then .failed else .spawning 0
  started := 0
  threads := fun _ => .new
  workers := []
  shutdown := false
  mutex := none
  freed := false

def setThread
    (s : PoolConstruction)
    (k : Nat)
    (t : StartedThread) : PoolConstruction :=
  { s with threads := Function.update s.threads k t }

/- `KThreadRelease`, with `KThreadDeInit` for the last one. -/
def releaseThread
    (s : PoolConstruction)
    (k : Nat)
    (resume : Resume) : PoolConstruction :=
  { s.setThread k (s.threads k).release with
    phase :=
      if (s.threads k).refCount = 1 then
        .joining k resume
      else
        .resumed resume }

/- `KThreadJoin` on a started thread. -/
def joinThread
    (s : PoolConstruction)
    (k : Nat)
    (phase : ConstructionPhase) : Option PoolConstruction :=
  (s.threads k).join.map
    (fun t => { s.setThread k t with phase := phase })

/-
  The next step of `KWorkerPoolNew`. `spawn` and `grows` are
  what `KThreadNew` and the `realloc` of `KArrayAddObject`
  answer in an iteration. A thread that was not created has
  an object, which is released twice and then deinitialized.
  Once the pool is released nothing else refers to it.
-/
def construct
    (workerCount : Nat)
    (spawn : Nat → SpawnAnswer)
    (grows : Nat → Bool)
    (s : PoolConstruction) : Option PoolConstruction :=
  match s.phase with
  | .spawning i =>
      if i < workerCount then
        match spawn i with
        | .noObject => some { s with phase := .spawning (i + 1) }
        | .notCreated =>
            StartedThread.new.release.release.join.map
              (fun _ => { s with phase := .spawning (i + 1) })
        | .created =>
            some
              { s.setThread s.started .new with
                phase := .storing i s.started
                started := s.started + 1 }
      else
        some { s with phase := .testing }
  | .storing i k =>
      some
        { s.setThread k { s.threads k with isValid := true } with
          phase := .adding i k }
  | .adding i k =>
      if grows i = true then
        some
          { s.setThread k (s.threads k).retain with
            phase := .releasing i k
            workers := s.workers ++ [k] }
      else
        some { s with phase := .releasing i k }
  | .releasing i k =>
      some (s.releaseThread k (.spawning (i + 1)))
  | .joining k resume => s.joinThread k (.resumed resume)
  | .testing =>
      some
        { s with
          phase :=
            if s.workers.length = workerCount then
              .succeeded
            else
              .entering }
  | .entering =>
      if s.mutex = none then
        some
          { s with phase := .locked, mutex := some .constructor }
      else
        none
  | .locked =>
      some
        { s with
          phase := .notifying
          shutdown := true
          mutex := none }
  | .notifying =>
      some
        { s with
          phase := .iterating 0
          threads := fun k => (s.threads k).wake }
  | .iterating j =>
      match s.workers[j]? with
      | some k => s.joinThread k (.iterating (j + 1))
      | none => some { s with phase := .clearing 0 }
  | .clearing j =>
      match s.workers[j]? with
      | some k => some (s.releaseThread k (.clearing (j + 1)))
      | none => some { s with phase := .freeing, workers := [] }
  | .freeing => some { s with phase := .failed, freed := true }
  | .succeeded => none
  | .failed => none

/- The mutex after a step of a thread. -/
def useMutex
    (s : PoolConstruction)
    (k : Nat) : MutexUse → Option ConstructionActor
| .keeps => s.mutex
| .takes => some (.thread k)
| .gives => none

def moveThread
    (s : PoolConstruction)
    (k : Nat)
    (t : StartedThread)
    (mutex : Option ConstructionActor) : PoolConstruction :=
  { s.setThread k t with mutex := mutex }

def runThread
    (s : PoolConstruction)
    (k : Nat) : Option PoolConstruction :=
  if k < s.started then
    ((s.threads k).run s.mutex.isNone s.shutdown).map
      (fun p => s.moveThread k p.1 (s.useMutex k p.2))
  else
    none

def step
    (workerCount : Nat)
    (spawn : Nat → SpawnAnswer)
    (grows : Nat → Bool)
    (s : PoolConstruction) :
    ConstructionStep → Option PoolConstruction
| .construct => s.construct workerCount spawn grows
| .thread k => s.runThread k
| .spurious k =>
    if k < s.started then
      some (s.moveThread k (s.threads k).wake s.mutex)
    else
      none

/- The construction with fixed answers, in any order. -/
def system
    (workerCount : Nat)
    (spawn : Nat → SpawnAnswer)
    (grows : Nat → Bool) :
    TransitionSystem PoolConstruction ConstructionStep where
  Init s := s = new workerCount
  step := step workerCount spawn grows

/- The constructor has returned. -/
def Returned (s : PoolConstruction) : Prop :=
  s.phase = .succeeded ∨ s.phase = .failed

/- Every thread that was started was waited for. -/
def AllJoined (s : PoolConstruction) : Prop :=
  ∀ k < s.started,
    (s.threads k).phase = .ended ∧ (s.threads k).joined = true

/-
  The constructor can always get to its return, and what it
  started has been joined when it returns NULL and when the
  memory of the pool is freed.
-/
def CleansUp
    (workerCount : Nat)
    (spawn : Nat → SpawnAnswer)
    (grows : Nat → Bool) : Prop :=
  ∀ s,
    (system workerCount spawn grows).Reachable s →
      (∃ s',
          (system workerCount spawn grows).Leads s s' ∧
            s'.Returned) ∧
        (s.phase = .failed → s.AllJoined) ∧
          (s.freed = true → s.AllJoined)

end PoolConstruction

end KDoth
