import KDoth.Collections.KList

/-
  The tasks of `kworker_pool.c` as objects: posting allocates
  a task and a list node, and a worker that takes a task
  releases what it held.

  Key definitions include:
    * `PostedTask`
    * `PostedTask.postTask`
    * `PostedTask.takeTask`

  Key theorems include:
    * `PostedTask.runs_postTask`
    * `PostedTask.runs_takeTask`
-/

------------------------------------------------------------
-- Tasks
------------------------------------------------------------

namespace KDoth

/-
  A `KWorkerPoolTask` as an object: its procedure is not
  NULL, and is called with the user data.
-/
structure PostedTask where
  address : Nat
  userData : Option KObjectRef

namespace PostedTask

/- `KWorkerPoolTaskDeInit`. -/
def deInit (task : PostedTask) : Call Unit :=
  KObject.releaseOrNull task.userData

instance : KObject PostedTask where
  retain task := objectRetain task.address
  release task := objectRelease task.address task.deInit

/- `KObjectRetain` accepts NULL. -/
def retainUserData : Option KObjectRef → Call Unit
| none => pure ()
| some object => KObject.retain object

/-
  `KWorkerPoolPostTask` on the queue of a live pool, whose
  critical section can always be entered and left. The task
  is written to without a check.
-/
def postTask
    (allocator : Allocator)
    (tasks : KList PostedTask)
    (hasProc : Bool)
    (userData : Option KObjectRef) :
    Call (KList PostedTask × Bool) := do
  if !hasProc then
    pure (tasks, false)
  else
    match ← objectNew allocator .kWorkerPoolTask with
    | none => throw .nullDereference
    | some address =>
        let task : PostedTask :=
          { address := address, userData := userData }
        retainUserData userData
        let (tasks, added) ←
          tasks.addObject allocator (some task)
        kAssert added
        KObject.release task
        pure (tasks, true)

/-
  A worker takes the oldest task: `KWorkerPoolTaskExecute`
  releases the object of the task, whose reference is then
  cleared, and the worker releases the task.
-/
def takeTask
    (tasks : KList PostedTask) :
    Call (KList PostedTask × Bool) := do
  match tasks.removeObjectAtIndex 0 with
  | (tasks, none) => pure (tasks, false)
  | (tasks, some task) =>
      KObject.releaseOrNull task.userData
      KObject.release { task with userData := none }
      pure (tasks, true)

end PostedTask

end KDoth

------------------------------------------------------------
-- Safe Use
------------------------------------------------------------

namespace KDoth

namespace PostedTask

open Command

variable {allocator : Allocator} {A : Prop}

theorem runs_releaseUserData
    (userData : Option KObjectRef) :
    Runs allocator A (KObject.releaseOrNull userData)
      (fun _ => True) := by
  cases userData with
  | none => exact Runs.ret trivial
  | some object =>
      exact SafeObject.runs_release allocator A object trivial

instance : SafeObject PostedTask where
  WellBuilt _ := True
  runs_retain _ _ _ := Runs.ofObjectRetain
  runs_release _ _ task _ :=
    Runs.ofObjectRelease (runs_releaseUserData task.userData)

theorem runs_retainUserData
    (userData : Option KObjectRef) :
    Runs allocator A (retainUserData userData)
      (fun _ => True) := by
  cases userData with
  | none => exact Runs.ret trivial
  | some object =>
      exact SafeObject.runs_retain allocator A object

/-
  A refused task is written to through NULL. A refused list
  node fails the assertion.
-/
theorem runs_postTask
    (hAssert : A)
    (tasks : KList PostedTask)
    (hasProc : Bool)
    (userData : Option KObjectRef) :
    Runs allocator A (postTask allocator tasks hasProc userData)
      (fun r => r.2 = false → r.1 = tasks) := by
  unfold postTask
  cases hasProc with
  | false => exact Runs.ret (fun _ => rfl)
  | true =>
      simp only [Bool.not_true, Bool.false_eq_true, if_false]
      intro p hp
      rw [wp_bind, wp_objectNew]
      cases hGranted : allocator p.requests.length with
      | false =>
          simp [StopsAt, hGranted, AllocationSite.fatal]
      | true =>
          have hClean :
              ¬ (p.requested
                  (.objectNew .kWorkerPoolTask)).created.Refused
                    allocator := by
            simp [hp, hGranted]
          rw [if_pos rfl]
          have hRest :
              Runs allocator A
                (do
                  let task : PostedTask :=
                    { address := p.nextAddress
                      userData := userData }
                  retainUserData userData
                  let (tasks, added) ←
                    tasks.addObject allocator (some task)
                  kAssert added
                  KObject.release task
                  pure (tasks, true))
                (fun r => r.2 = false → r.1 = tasks) := by
            refine Runs.bind (runs_retainUserData userData) ?_
            intro _ _
            refine Runs.bind (KList.runs_addObject tasks _) ?_
            rintro ⟨grown, added⟩ _
            refine Runs.bind (Runs.ofAssert fun _ => hAssert) ?_
            intro _ _
            apply
              Runs.bind_release
                ({ address := p.nextAddress
                   userData := userData } : PostedTask)
                trivial
            exact Runs.ret (by simp)
          exact hRest _ hClean

theorem runs_takeTask
    (tasks : KList PostedTask) :
    Runs allocator A (takeTask tasks)
      (fun r => r.2 = false → r.1 = tasks) := by
  unfold takeTask KList.removeObjectAtIndex
  cases hTask : tasks.items[0]? with
  | none => exact Runs.ret (fun _ => rfl)
  | some task =>
      refine Runs.bind (runs_releaseUserData task.userData) ?_
      intro _ _
      apply
        Runs.bind_release
          ({ task with userData := none } : PostedTask) trivial
      exact Runs.ret (by simp)

end PostedTask

end KDoth
