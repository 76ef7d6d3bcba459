import KDoth.Threads.KWorkerPoolNew

/-
  What the constructor relies on while the array takes every
  thread that it starts, and that each step keeps it.

  Key definitions include:
    * `PoolConstruction.Stage`
    * `PoolConstruction.Orderly`
    * `PoolConstruction.Arranged`

  Key theorems include:
    * `PoolConstruction.Stage.goes`
    * `PoolConstruction.Orderly.constructs`
    * `PoolConstruction.Arranged.of_reachable`
-/

------------------------------------------------------------
-- Orderly Construction
------------------------------------------------------------

namespace KDoth

namespace PoolConstruction

open StartedThread

variable {workerCount : Nat}
variable {spawn : Nat → SpawnAnswer}
variable {grows : Nat → Bool}
variable {s s' : PoolConstruction}

/- The first threads have a reference in the array. -/
def Kept (s : PoolConstruction) (count : Nat) : Prop :=
  s.workers = List.range count ∧
    ∀ k < count, (s.threads k).Recorded 1

/- All threads are joined, and their references are going. -/
structure Cleared
    (workerCount : Nat)
    (s : PoolConstruction)
    (j : Nat) : Prop where
  bound : j ≤ s.started
  most : s.started ≤ workerCount
  workers : s.workers = List.range s.started
  done : ∀ k < s.started, (s.threads k).Done
  count :
    ∀ k < s.started, j ≤ k → (s.threads k).refCount = 1

/- The first threads are joined, the others can be. -/
structure Iterates
    (workerCount : Nat)
    (s : PoolConstruction)
    (j : Nat) : Prop where
  flag : s.shutdown = true
  bound : j ≤ s.started
  most : s.started ≤ workerCount
  workers : s.workers = List.range s.started
  done :
    ∀ k < j, (s.threads k).Done ∧ (s.threads k).refCount = 1
  rest :
    ∀ k < s.started,
      j ≤ k →
        (s.threads k).Recorded 1 ∧
          (s.threads k).phase ≠ .waiting

/- What holds where the constructor is. -/
def Stage
    (workerCount : Nat)
    (s : PoolConstruction) : Prop :=
  match s.phase with
  | .spawning i =>
      i ≤ workerCount ∧ s.started ≤ i ∧ s.Kept s.started
  | .storing i k =>
      i < workerCount ∧ k ≤ i ∧ s.started = k + 1 ∧
        s.Kept k ∧ (s.threads k).Held 1 ∧
          (s.threads k).isJoined = false
  | .adding i k =>
      i < workerCount ∧ k ≤ i ∧ s.started = k + 1 ∧
        s.Kept k ∧ (s.threads k).Recorded 1
  | .releasing i k =>
      i < workerCount ∧ k ≤ i ∧ s.started = k + 1 ∧
        s.workers = List.range (k + 1) ∧
          (∀ m < k, (s.threads m).Recorded 1) ∧
            (s.threads k).Recorded 2
  | .joining k resume =>
      k < s.started ∧
        ∃ j, resume = .clearing j ∧ s.Cleared workerCount j
  | .notifying =>
      s.started ≤ workerCount ∧ s.Kept s.started ∧
        s.shutdown = true
  | .iterating j => s.Iterates workerCount j
  | .clearing j => s.Cleared workerCount j
  | .freeing => ∀ k < s.started, (s.threads k).Done
  | .failed => ∀ k < s.started, (s.threads k).Done
  | _ => s.started ≤ workerCount ∧ s.Kept s.started

/- The owner of the mutex is in the critical section. -/
structure Orderly
    (workerCount : Nat)
    (s : PoolConstruction) : Prop where
  stage : s.Stage workerCount
  owner :
    ∀ k,
      s.mutex = some (.thread k) →
        k < s.started ∧ (s.threads k).Inside
  lock : s.mutex = some .constructor → s.phase = .locked

theorem Orderly.stage_iterating
    {j : Nat}
    (hOrderly : s.Orderly workerCount)
    (hAt : s.phase = .iterating j) :
    s.Iterates workerCount j := by
  have hStage := hOrderly.stage
  unfold Stage at hStage
  rw [hAt] at hStage
  exact hStage

theorem Orderly.stage_clearing
    {j : Nat}
    (hOrderly : s.Orderly workerCount)
    (hAt : s.phase = .clearing j) :
    s.Cleared workerCount j := by
  have hStage := hOrderly.stage
  unfold Stage at hStage
  rw [hAt] at hStage
  exact hStage

theorem threads_moveThread_cases
    (s : PoolConstruction)
    (k : Nat)
    (t : StartedThread)
    (mutex : Option ConstructionActor)
    (m : Nat) :
    (m = k ∧ (s.moveThread k t mutex).threads m = t) ∨
      (m ≠ k ∧
        (s.moveThread k t mutex).threads m = s.threads m) := by
  by_cases hSelf : m = k
  · subst hSelf
    exact .inl ⟨rfl, Function.update_self ..⟩
  · exact .inr ⟨hSelf, Function.update_of_ne hSelf ..⟩

section Going

variable {k : Nat}
variable {t : StartedThread}
variable {mutex : Option ConstructionActor}
variable (hGoes : Goes s.shutdown (s.threads k) t)

include hGoes

theorem recorded_moveThread
    {m r : Nat}
    (hPos : 0 < r)
    (hRecorded : (s.threads m).Recorded r) :
    ((s.moveThread k t mutex).threads m).Recorded r := by
  rcases s.threads_moveThread_cases k t mutex m with
    ⟨rfl, hEq⟩ | ⟨_, hEq⟩
  · rw [hEq]
    exact hRecorded.goes hGoes hPos
  · rw [hEq]
    exact hRecorded

theorem done_moveThread
    {m : Nat}
    (hDone : (s.threads m).Done) :
    (s.moveThread k t mutex).threads m = s.threads m := by
  rcases s.threads_moveThread_cases k t mutex m with
    ⟨rfl, hEq⟩ | ⟨_, hEq⟩
  · rw [hEq, hGoes.ended hDone.ended]
  · exact hEq

theorem kept_moveThread
    {count : Nat}
    (hKept : s.Kept count) :
    (s.moveThread k t mutex).Kept count :=
  ⟨hKept.1, fun m hm =>
    recorded_moveThread hGoes Nat.one_pos (hKept.2 m hm)⟩

theorem cleared_moveThread
    {j : Nat}
    (hCleared : s.Cleared workerCount j) :
    (s.moveThread k t mutex).Cleared workerCount j := by
  refine
    ⟨hCleared.bound, hCleared.most, hCleared.workers, ?_, ?_⟩
  · intro m hm
    rw [done_moveThread hGoes (hCleared.done m hm)]
    exact hCleared.done m hm
  · intro m hm hLe
    rw [done_moveThread hGoes (hCleared.done m hm)]
    exact hCleared.count m hm hLe

theorem iterates_moveThread
    {j : Nat}
    (hIterates : s.Iterates workerCount j) :
    (s.moveThread k t mutex).Iterates workerCount j := by
  refine
    ⟨hIterates.flag, hIterates.bound, hIterates.most,
      hIterates.workers, ?_, ?_⟩
  · intro m hm
    rw [done_moveThread hGoes (hIterates.done m hm).1]
    exact hIterates.done m hm
  · intro m hm hLe
    rcases hIterates.rest m hm hLe with ⟨hRecorded, hUp⟩
    refine ⟨recorded_moveThread hGoes Nat.one_pos hRecorded, ?_⟩
    rcases s.threads_moveThread_cases k t mutex m with
      ⟨rfl, hEq⟩ | ⟨_, hEq⟩
    · rw [hEq]
      exact hGoes.waits hIterates.flag hUp
    · rw [hEq]
      exact hUp

/- A step of a thread keeps what the constructor relies on. -/
theorem Stage.goes
    (hStage : s.Stage workerCount) :
    (s.moveThread k t mutex).Stage workerCount := by
  have hPhase : (s.moveThread k t mutex).phase = s.phase := rfl
  have hStarted : (s.moveThread k t mutex).started = s.started := rfl
  unfold Stage at hStage ⊢
  rw [hPhase]
  cases hAt : s.phase with
  | spawning i =>
      rw [hAt] at hStage
      rcases hStage with ⟨hBound, hMost, hKept⟩
      exact ⟨hBound, hMost, kept_moveThread hGoes hKept⟩
  | storing i m =>
      rw [hAt] at hStage
      rcases hStage with
        ⟨hBound, hMost, hLast, hKept, hHeld, hUnjoined⟩
      refine
        ⟨hBound, hMost, hLast, kept_moveThread hGoes hKept, ?_⟩
      rcases s.threads_moveThread_cases k t mutex m with
        ⟨rfl, hEq⟩ | ⟨_, hEq⟩
      · rcases hGoes.held 1 Nat.one_pos hHeld with
          ⟨hHeld', _, hSame⟩
        rw [hEq, hSame]
        exact ⟨hHeld', hUnjoined⟩
      · rw [hEq]
        exact ⟨hHeld, hUnjoined⟩
  | adding i m =>
      rw [hAt] at hStage
      rcases hStage with ⟨hBound, hMost, hLast, hKept, hHand⟩
      exact
        ⟨hBound, hMost, hLast, kept_moveThread hGoes hKept,
          recorded_moveThread hGoes Nat.one_pos hHand⟩
  | releasing i m =>
      rw [hAt] at hStage
      rcases hStage with
        ⟨hBound, hMost, hLast, hWorkers, hOthers, hHand⟩
      refine ⟨hBound, hMost, hLast, hWorkers, ?_, ?_⟩
      · exact fun u hu =>
          recorded_moveThread hGoes Nat.one_pos (hOthers u hu)
      · exact recorded_moveThread hGoes Nat.two_pos hHand
  | joining m resume =>
      rw [hAt] at hStage
      rcases hStage with ⟨hBound, j, hResume, hCleared⟩
      exact
        ⟨hBound, j, hResume, cleared_moveThread hGoes hCleared⟩
  | notifying =>
      rw [hAt] at hStage
      rcases hStage with ⟨hMost, hKept, hFlag⟩
      exact ⟨hMost, kept_moveThread hGoes hKept, hFlag⟩
  | iterating j =>
      rw [hAt] at hStage
      exact iterates_moveThread hGoes hStage
  | clearing j =>
      rw [hAt] at hStage
      exact cleared_moveThread hGoes hStage
  | freeing
  | failed =>
      rw [hAt] at hStage
      intro m hm
      rw [done_moveThread hGoes (hStage m hm)]
      exact hStage m hm
  | testing
  | succeeded
  | entering
  | locked =>
      rw [hAt] at hStage
      exact ⟨hStage.1, kept_moveThread hGoes hStage.2⟩

end Going

/- Who is inside leaves with a step that gives the mutex up. -/
theorem Orderly.runThread
    {k : Nat}
    (hOrderly : s.Orderly workerCount)
    (hRun : s.runThread k = some s') :
    s'.Orderly workerCount := by
  unfold PoolConstruction.runThread at hRun
  by_cases hStarted : k < s.started
  · rw [if_pos hStarted] at hRun
    rcases Option.map_eq_some_iff.mp hRun with
      ⟨⟨t, use⟩, hThread, rfl⟩
    rcases goes_of_run hThread with ⟨hGoes, hUses⟩
    constructor
    · exact hOrderly.stage.goes hGoes
    · intro m hOwner
      change s.useMutex k use = some (.thread m) at hOwner
      change
        m < s.started ∧
          ((s.moveThread k t (s.useMutex k use)).threads
            m).Inside
      have hCases :=
        s.threads_moveThread_cases k t (s.useMutex k use) m
      cases hUses with
      | gives => cases hOwner
      | takes _ hInside =>
          cases hOwner
          refine ⟨hStarted, ?_⟩
          rcases hCases with ⟨_, hEq⟩ | ⟨hNe, _⟩
          · rw [hEq]
            exact hInside
          · exact absurd rfl hNe
      | keeps hOutside =>
          rcases hOrderly.owner m hOwner with ⟨hBound, hInside⟩
          refine ⟨hBound, ?_⟩
          rcases hCases with ⟨rfl, _⟩ | ⟨_, hEq⟩
          · exact absurd hInside hOutside
          · rw [hEq]
            exact hInside
    · intro hOwner
      change s.useMutex k use = some .constructor at hOwner
      cases hUses with
      | gives => cases hOwner
      | takes _ _ => cases hOwner
      | keeps _ => exact hOrderly.lock hOwner
  · rw [if_neg hStarted] at hRun
    cases hRun

/- A wakeup does not concern who has the mutex. -/
theorem Orderly.wakeThread
    (k : Nat)
    (hOrderly : s.Orderly workerCount) :
    (s.moveThread k (s.threads k).wake s.mutex).Orderly
      workerCount := by
  refine ⟨hOrderly.stage.goes goes_of_wake, ?_, hOrderly.lock⟩
  intro m hOwner
  rcases hOrderly.owner m hOwner with ⟨hBound, hInside⟩
  refine ⟨hBound, ?_⟩
  rcases s.threads_moveThread_cases k (s.threads k).wake s.mutex m
    with
    ⟨rfl, hEq⟩ | ⟨_, hEq⟩
  · rw [hEq, wake_of_inside hInside]
    exact hInside
  · rw [hEq]
    exact hInside

theorem threads_setThread_self
    (s : PoolConstruction)
    (k : Nat)
    (t : StartedThread) :
    (s.setThread k t).threads k = t :=
  Function.update_self ..

theorem threads_setThread_of_ne
    (s : PoolConstruction)
    {k m : Nat}
    (t : StartedThread)
    (hNe : m ≠ k) :
    (s.setThread k t).threads m = s.threads m :=
  Function.update_of_ne hNe ..

/- The constructor moves no thread but to wake it. -/
theorem Orderly.of_stage
    (hOrderly : s.Orderly workerCount)
    (hStage : s'.Stage workerCount)
    (hPhase : s.phase ≠ .locked)
    (hMutex : s'.mutex = s.mutex)
    (hStarted : s.started ≤ s'.started)
    (hInside :
      ∀ k < s.started,
        (s.threads k).Inside → (s'.threads k).Inside) :
    s'.Orderly workerCount := by
  refine ⟨hStage, ?_, ?_⟩
  · intro k hOwner
    rw [hMutex] at hOwner
    rcases hOrderly.owner k hOwner with ⟨hBound, hIn⟩
    exact ⟨Nat.lt_of_lt_of_le hBound hStarted, hInside k hBound hIn⟩
  · intro hOwner
    rw [hMutex] at hOwner
    exact absurd (hOrderly.lock hOwner) hPhase

theorem Orderly.of_kept
    (hOrderly : s.Orderly workerCount)
    (hStage : s'.Stage workerCount)
    (hPhase : s.phase ≠ .locked)
    (hMutex : s'.mutex = s.mutex)
    (hStarted : s'.started = s.started)
    (hThreads : s'.threads = s.threads) :
    s'.Orderly workerCount := by
  apply hOrderly.of_stage hStage hPhase hMutex
  · exact Nat.le_of_eq hStarted.symm
  · intro k _ hInside
    rw [hThreads]
    exact hInside

/- The object of a thread is changed, not what it does. -/
theorem inside_setThread
    {k : Nat}
    {t : StartedThread}
    (hPhase : t.phase = (s.threads k).phase)
    (m : Nat)
    (hInside : (s.threads m).Inside) :
    ((s.setThread k t).threads m).Inside := by
  by_cases hSelf : m = k
  · subst hSelf
    rw [threads_setThread_self]
    unfold StartedThread.Inside
    rw [hPhase]
    exact hInside
  · rw [s.threads_setThread_of_ne t hSelf]
    exact hInside

theorem Orderly.of_setThread
    {k : Nat}
    {t : StartedThread}
    (hOrderly : s.Orderly workerCount)
    (hPhase : s.phase ≠ .locked)
    (hMutex : s'.mutex = s.mutex)
    (hStarted : s'.started = s.started)
    (hThreads : s'.threads = (s.setThread k t).threads)
    (hSame : t.phase = (s.threads k).phase)
    (hStage : s'.Stage workerCount) :
    s'.Orderly workerCount := by
  apply hOrderly.of_stage hStage hPhase hMutex
  · exact Nat.le_of_eq hStarted.symm
  · intro m _ hInside
    rw [hThreads]
    exact inside_setThread hSame m hInside

/- The thread of an iteration is new. -/
theorem Orderly.spawns
    {i : Nat}
    (hOrderly : s.Orderly workerCount)
    (hAt : s.phase = .spawning i)
    (hMore : i < workerCount) :
    { s.setThread s.started .new with
      phase := .storing i s.started
      started := s.started + 1 }.Orderly workerCount := by
  have hStage := hOrderly.stage
  unfold Stage at hStage
  rw [hAt] at hStage
  rcases hStage with ⟨_, hMost, hKept⟩
  have hOthers :
      ∀ m < s.started,
        (s.setThread s.started .new).threads m =
          s.threads m := fun m hm =>
    s.threads_setThread_of_ne .new (Nat.ne_of_lt hm)
  apply hOrderly.of_stage
  · refine ⟨hMore, hMost, rfl, ⟨hKept.1, ?_⟩, ?_, ?_⟩
    · intro m hm
      change ((s.setThread s.started .new).threads m).Recorded 1
      rw [hOthers m hm]
      exact hKept.2 m hm
    · change ((s.setThread s.started .new).threads s.started).Held 1
      rw [threads_setThread_self]
      exact ⟨rfl, nofun⟩
    · change
        ((s.setThread s.started .new).threads
          s.started).isJoined = false
      rw [threads_setThread_self]
      rfl
  · rw [hAt]
    nofun
  · rfl
  · exact Nat.le_succ _
  · intro k hk hInside
    change ((s.setThread s.started .new).threads k).Inside
    rw [hOthers k hk]
    exact hInside

theorem Orderly.stores
    {i k : Nat}
    (hOrderly : s.Orderly workerCount)
    (hAt : s.phase = .storing i k) :
    { s.setThread k { s.threads k with isValid := true } with
      phase := .adding i k }.Orderly workerCount := by
  have hStage := hOrderly.stage
  unfold Stage at hStage
  rw [hAt] at hStage
  rcases hStage with
    ⟨hBound, hMost, hLast, hKept, hHeld, hUnjoined⟩
  have hNot : s.phase ≠ .locked := by
    rw [hAt]
    nofun
  refine hOrderly.of_setThread hNot rfl rfl rfl rfl ?_
  refine ⟨hBound, hMost, hLast, ⟨hKept.1, ?_⟩, ?_⟩
  · intro m hm
    change ((s.setThread k _).threads m).Recorded 1
    rw [s.threads_setThread_of_ne _ (Nat.ne_of_lt hm)]
    exact hKept.2 m hm
  · change ((s.setThread k _).threads k).Recorded 1
    rw [threads_setThread_self]
    exact ⟨⟨hHeld.count, hHeld.phase⟩, rfl, hUnjoined⟩

/- The array takes a reference. -/
theorem Orderly.adds
    {i k : Nat}
    (hOrderly : s.Orderly workerCount)
    (hAt : s.phase = .adding i k) :
    { s.setThread k (s.threads k).retain with
      phase := .releasing i k
      workers := s.workers ++ [k] }.Orderly workerCount := by
  have hStage := hOrderly.stage
  unfold Stage at hStage
  rw [hAt] at hStage
  rcases hStage with ⟨hBound, hMost, hLast, hKept, hHand⟩
  have hNot : s.phase ≠ .locked := by
    rw [hAt]
    nofun
  refine hOrderly.of_setThread hNot rfl rfl rfl rfl ?_
  refine ⟨hBound, hMost, hLast, ?_, ?_, ?_⟩
  · change s.workers ++ [k] = List.range (k + 1)
    rw [hKept.1, List.range_succ]
  · intro m hm
    change ((s.setThread k _).threads m).Recorded 1
    rw [s.threads_setThread_of_ne _ (Nat.ne_of_lt hm)]
    exact hKept.2 m hm
  · change ((s.setThread k _).threads k).Recorded 2
    rw [threads_setThread_self]
    refine
      ⟨⟨?_, hHand.held.phase⟩, hHand.valid, hHand.unjoined⟩
    have hCount := hHand.held.count
    change (s.threads k).refCount + 1 = _
    rw [hCount]
    change _ = 2 + (if (s.threads k).phase = .start then 1 else 0)
    omega

/- The reference in the array stays. -/
theorem Orderly.releases
    {i k : Nat}
    (hOrderly : s.Orderly workerCount)
    (hAt : s.phase = .releasing i k) :
    (s.releaseThread k (.spawning (i + 1))).Orderly
      workerCount := by
  have hStage := hOrderly.stage
  unfold Stage at hStage
  rw [hAt] at hStage
  rcases hStage with
    ⟨hBound, hMost, hLast, hWorkers, hOthers, hHand⟩
  have hCount := hHand.held.count
  have hNot : (s.threads k).refCount ≠ 1 := by omega
  have hEq :
      s.releaseThread k (.spawning (i + 1)) =
        { s.setThread k (s.threads k).release with
          phase := .spawning (i + 1) } := by
    unfold releaseThread
    rw [if_neg hNot]
    rfl
  rw [hEq]
  have hNot : s.phase ≠ .locked := by
    rw [hAt]
    nofun
  refine hOrderly.of_setThread hNot rfl rfl rfl rfl ?_
  refine ⟨hBound, ?_, ?_, ?_⟩
  · change s.started ≤ i + 1
    omega
  · change s.workers = List.range s.started
    rw [hLast, hWorkers]
  · intro m hm
    change m < s.started at hm
    change ((s.setThread k _).threads m).Recorded 1
    by_cases hSelf : m = k
    · subst hSelf
      rw [threads_setThread_self]
      refine
        ⟨⟨?_, hHand.held.phase⟩, hHand.valid, hHand.unjoined⟩
      change (s.threads m).refCount - 1 = _
      rw [hCount]
      change
        _ = 1 + (if (s.threads m).phase = .start then 1 else 0)
      omega
    · rw [s.threads_setThread_of_ne _ hSelf]
      exact hOthers m (by omega)

/- The array holds the threads in the order of their start. -/
theorem worker_of_range
    {j k count : Nat}
    (hWorkers : s.workers = List.range count)
    (hAt : s.workers[j]? = some k) :
    k = j ∧ j < count := by
  rw [hWorkers] at hAt
  rcases List.getElem?_eq_some_iff.mp hAt with ⟨hBound, hEq⟩
  rw [List.getElem_range] at hEq
  rw [List.length_range] at hBound
  exact ⟨hEq.symm, hBound⟩

theorem no_worker_of_range
    {j count : Nat}
    (hWorkers : s.workers = List.range count)
    (hAt : s.workers[j]? = none) :
    count ≤ j := by
  rw [hWorkers, List.getElem?_eq_none_iff,
    List.length_range] at hAt
  exact hAt

theorem Orderly.wakesAll
    (hOrderly : s.Orderly workerCount)
    (hAt : s.phase = .notifying) :
    { s with
      phase := .iterating 0
      threads := fun k => (s.threads k).wake }.Orderly
        workerCount := by
  have hStage := hOrderly.stage
  unfold Stage at hStage
  rw [hAt] at hStage
  rcases hStage with ⟨hMost, hKept, hFlag⟩
  apply hOrderly.of_stage
  · refine ⟨hFlag, Nat.zero_le _, hMost, hKept.1, ?_, ?_⟩
    · exact fun k hk => absurd hk (Nat.not_lt_zero k)
    · intro k hk _
      have hWake :
          Goes s.shutdown (s.threads k) (s.threads k).wake :=
        goes_of_wake
      exact ⟨(hKept.2 k hk).goes hWake Nat.one_pos, wake_phase⟩
  · rw [hAt]
    nofun
  · rfl
  · exact Nat.le_refl _
  · intro k _ hInside
    change (s.threads k).wake.Inside
    rw [wake_of_inside hInside]
    exact hInside

/- The constructor waits for the end of a thread. -/
theorem Orderly.iterates
    {j k : Nat}
    (hOrderly : s.Orderly workerCount)
    (hAt : s.phase = .iterating j)
    (hWorker : s.workers[j]? = some k)
    (hJoin : s.joinThread k (.iterating (j + 1)) = some s') :
    s'.Orderly workerCount := by
  have hIterates := hOrderly.stage_iterating hAt
  rcases worker_of_range hIterates.workers hWorker with
    ⟨rfl, hBound⟩
  rcases Option.map_eq_some_iff.mp hJoin with ⟨t, hThread, rfl⟩
  have hRecorded := (hIterates.rest k hBound (Nat.le_refl _)).1
  rcases hRecorded.join hThread with ⟨hEnded, hDone, hCount⟩
  apply hOrderly.of_stage
  · refine
      ⟨hIterates.flag, hBound, hIterates.most,
        hIterates.workers, ?_, ?_⟩
    · intro m hm
      change
        ((s.setThread k t).threads m).Done ∧
          ((s.setThread k t).threads m).refCount = 1
      by_cases hSelf : m = k
      · subst hSelf
        rw [threads_setThread_self]
        exact ⟨hDone, hCount⟩
      · rw [s.threads_setThread_of_ne t hSelf]
        exact hIterates.done m (by omega)
    · intro m hm hLe
      change
        ((s.setThread k t).threads m).Recorded 1 ∧
          ((s.setThread k t).threads m).phase ≠ .waiting
      rw [s.threads_setThread_of_ne t (by omega)]
      exact hIterates.rest m hm (by omega)
  · rw [hAt]
    nofun
  · rfl
  · exact Nat.le_refl _
  · intro m hm hInside
    change ((s.setThread k t).threads m).Inside
    by_cases hSelf : m = k
    · subst hSelf
      rcases hInside with hBad | hBad <;> rw [hEnded] at hBad <;>
        cases hBad
    · rw [s.threads_setThread_of_ne t hSelf]
      exact hInside

/- The array gives up the last reference to a thread. -/
theorem Orderly.clears
    {j k : Nat}
    (hOrderly : s.Orderly workerCount)
    (hAt : s.phase = .clearing j)
    (hWorker : s.workers[j]? = some k) :
    (s.releaseThread k (.clearing (j + 1))).Orderly
      workerCount := by
  have hCleared := hOrderly.stage_clearing hAt
  rcases worker_of_range hCleared.workers hWorker with
    ⟨rfl, hBound⟩
  have hLast := hCleared.count k hBound (Nat.le_refl _)
  have hEq :
      s.releaseThread k (.clearing (k + 1)) =
        { s.setThread k (s.threads k).release with
          phase := .joining k (.clearing (k + 1)) } := by
    unfold releaseThread
    rw [if_pos hLast]
  rw [hEq]
  have hNot : s.phase ≠ .locked := by
    rw [hAt]
    nofun
  refine hOrderly.of_setThread hNot rfl rfl rfl rfl ?_
  refine
    ⟨hBound, k + 1, rfl, hBound, hCleared.most,
      hCleared.workers, ?_, ?_⟩
  · intro m hm
    change ((s.setThread k _).threads m).Done
    by_cases hSelf : m = k
    · subst hSelf
      rw [threads_setThread_self]
      rcases hCleared.done m hm with ⟨hEnd, hJoined, hIs⟩
      exact ⟨hEnd, hJoined, hIs⟩
    · rw [s.threads_setThread_of_ne _ hSelf]
      exact hCleared.done m hm
  · intro m hm hLe
    change ((s.setThread k _).threads m).refCount = 1
    rw [s.threads_setThread_of_ne _ (by omega)]
    exact hCleared.count m hm (by omega)

/- Its deinitialization finds it joined. -/
theorem Orderly.joins
    {k : Nat}
    {resume : Resume}
    (hOrderly : s.Orderly workerCount)
    (hAt : s.phase = .joining k resume) :
    s.joinThread k (.resumed resume) =
        some { s with phase := .resumed resume } ∧
      { s with phase := .resumed resume }.Orderly
        workerCount := by
  have hStage := hOrderly.stage
  unfold Stage at hStage
  rw [hAt] at hStage
  rcases hStage with ⟨hBound, j, rfl, hCleared⟩
  have hSame : s.setThread k (s.threads k) = s := by
    unfold setThread
    rw [Function.update_eq_self]
  constructor
  · unfold joinThread
    rw [(hCleared.done k hBound).join, Option.map_some, hSame]
  · refine hOrderly.of_kept ?_ ?_ rfl rfl rfl
    · exact
        ⟨hCleared.bound, hCleared.most, hCleared.workers,
          hCleared.done, hCleared.count⟩
    · rw [hAt]
      nofun

/- The iteration of a thread in hand has started it. -/
def Created
    (spawn : Nat → SpawnAnswer)
    (s : PoolConstruction) : Prop :=
  ∀ i k,
    s.phase = .storing i k ∨ s.phase = .adding i k →
      spawn i = .created

/- What the constructor and the threads keep. -/
structure Arranged
    (workerCount : Nat)
    (spawn : Nat → SpawnAnswer)
    (s : PoolConstruction) : Prop where
  orderly : s.Orderly workerCount
  created : s.Created spawn

theorem Created.of_other
    (hStoring : ∀ i k, s.phase ≠ .storing i k)
    (hAdding : ∀ i k, s.phase ≠ .adding i k) :
    s.Created spawn := by
  rintro i k (hAt | hAt)
  · exact absurd hAt (hStoring i k)
  · exact absurd hAt (hAdding i k)

/- The array takes every thread that is started. -/
def Grown
    (workerCount : Nat)
    (spawn : Nat → SpawnAnswer)
    (grows : Nat → Bool) : Prop :=
  ∀ i < workerCount, spawn i = .created → grows i = true

/- No thread is in hand once its reference is given up. -/
theorem created_releaseThread
    (s : PoolConstruction)
    (k : Nat)
    (resume : Resume) :
    (s.releaseThread k resume).Created spawn := by
  apply Created.of_other
  all_goals
    intro i m
    unfold releaseThread
    dsimp only
    split
    · nofun
    · cases resume <;> nofun

theorem created_resumed
    (s : PoolConstruction)
    (resume : Resume) :
    { s with phase := .resumed resume }.Created spawn := by
  apply Created.of_other
  all_goals
    intro i m
    cases resume <;> nofun

/- An iteration starts a thread or goes on to the next. -/
theorem Orderly.beginsIteration
    {i : Nat}
    (hOrderly : s.Orderly workerCount)
    (hAt : s.phase = .spawning i)
    (hStep : s.construct workerCount spawn grows = some s') :
    s'.Arranged workerCount spawn := by
  have hStage := hOrderly.stage
  unfold Stage at hStage
  rw [hAt] at hStage
  rcases hStage with ⟨hBound, hMost, hKept⟩
  have hNot : s.phase ≠ .locked := by
    rw [hAt]
    nofun
  unfold construct at hStep
  simp only [hAt] at hStep
  by_cases hMore : i < workerCount
  · rw [if_pos hMore] at hStep
    have hSkip :
        { s with phase := .spawning (i + 1) }.Arranged
          workerCount spawn := by
      refine ⟨?_, .of_other nofun nofun⟩
      refine hOrderly.of_kept ?_ hNot rfl rfl rfl
      exact ⟨hMore, Nat.le_succ_of_le hMost, hKept⟩
    cases hSpawn : spawn i with
    | noObject =>
        rw [hSpawn] at hStep
        cases hStep
        exact hSkip
    | notCreated =>
        rw [hSpawn] at hStep
        cases hStep
        exact hSkip
    | created =>
        rw [hSpawn] at hStep
        cases hStep
        refine ⟨hOrderly.spawns hAt hMore, ?_⟩
        rintro m k (hNew | hNew)
        · cases hNew
          exact hSpawn
        · cases hNew
  · rw [if_neg hMore] at hStep
    cases hStep
    refine ⟨?_, .of_other nofun nofun⟩
    refine hOrderly.of_kept ?_ hNot rfl rfl rfl
    exact ⟨Nat.le_trans hMost hBound, hKept⟩

/- The constructor takes the mutex, and gives it up. -/
theorem Orderly.enters
    (hOrderly : s.Orderly workerCount)
    (hAt : s.phase = .entering) :
    { s with
      phase := .locked
      mutex := some .constructor }.Orderly workerCount := by
  have hStage := hOrderly.stage
  unfold Stage at hStage
  rw [hAt] at hStage
  refine ⟨hStage, ?_, fun _ => rfl⟩
  intro k hOwner
  cases hOwner

theorem Orderly.leaves
    (hOrderly : s.Orderly workerCount)
    (hAt : s.phase = .locked) :
    { s with
      phase := .notifying
      shutdown := true
      mutex := none }.Orderly workerCount := by
  have hStage := hOrderly.stage
  unfold Stage at hStage
  rw [hAt] at hStage
  refine ⟨⟨hStage.1, hStage.2, rfl⟩, ?_, ?_⟩
  · intro k hOwner
    cases hOwner
  · intro hOwner
    cases hOwner

/- Past the end of the array, all threads are joined. -/
theorem Orderly.iterated
    {j : Nat}
    (hOrderly : s.Orderly workerCount)
    (hAt : s.phase = .iterating j)
    (hWorker : s.workers[j]? = none) :
    { s with phase := .clearing 0 }.Orderly workerCount := by
  have hIterates := hOrderly.stage_iterating hAt
  have hAll := no_worker_of_range hIterates.workers hWorker
  have hDone :
      ∀ k < s.started,
        (s.threads k).Done ∧ (s.threads k).refCount = 1 :=
    fun k hk => hIterates.done k (Nat.lt_of_lt_of_le hk hAll)
  have hNot : s.phase ≠ .locked := by
    rw [hAt]
    nofun
  refine hOrderly.of_kept ?_ hNot rfl rfl rfl
  exact
    ⟨Nat.zero_le _, hIterates.most, hIterates.workers,
      fun k hk => (hDone k hk).1,
      fun k hk _ => (hDone k hk).2⟩

theorem Orderly.cleared
    {j : Nat}
    (hOrderly : s.Orderly workerCount)
    (hAt : s.phase = .clearing j) :
    { s with phase := .freeing, workers := [] }.Orderly
      workerCount := by
  have hCleared := hOrderly.stage_clearing hAt
  have hNot : s.phase ≠ .locked := by
    rw [hAt]
    nofun
  exact hOrderly.of_kept hCleared.done hNot rfl rfl rfl

/- The constructor counts the threads in the array. -/
theorem Orderly.tests
    {phase : ConstructionPhase}
    (hOrderly : s.Orderly workerCount)
    (hAt : s.phase = .testing)
    (hNext : phase = .succeeded ∨ phase = .entering) :
    { s with phase := phase }.Orderly workerCount := by
  have hStage := hOrderly.stage
  unfold Stage at hStage
  rw [hAt] at hStage
  have hNot : s.phase ≠ .locked := by
    rw [hAt]
    nofun
  rcases hNext with rfl | rfl
  · exact hOrderly.of_kept hStage hNot rfl rfl rfl
  · exact hOrderly.of_kept hStage hNot rfl rfl rfl

/- All threads are done as the pool is freed. -/
theorem Orderly.freed
    (hOrderly : s.Orderly workerCount)
    (hAt : s.phase = .freeing) :
    { s with phase := .failed, freed := true }.Orderly
      workerCount := by
  have hStage := hOrderly.stage
  unfold Stage at hStage
  rw [hAt] at hStage
  have hNot : s.phase ≠ .locked := by
    rw [hAt]
    nofun
  exact hOrderly.of_kept hStage hNot rfl rfl rfl

/- The constructor goes on and keeps what it relies on. -/
theorem Orderly.constructs
    (hGrown : Grown workerCount spawn grows)
    (hOrderly : s.Orderly workerCount)
    (hCreated : s.Created spawn)
    (hStep : s.construct workerCount spawn grows = some s') :
    s'.Arranged workerCount spawn := by
  have hStage := hOrderly.stage
  cases hAt : s.phase with
  | spawning i => exact hOrderly.beginsIteration hAt hStep
  | storing i k =>
      simp only [construct, hAt, Option.some.injEq] at hStep
      subst hStep
      refine ⟨hOrderly.stores hAt, ?_⟩
      rintro m u (hNew | hNew)
      · cases hNew
      · cases hNew
        exact hCreated _ _ (.inl hAt)
  | adding i k =>
      simp only [construct, hAt] at hStep
      unfold Stage at hStage
      rw [hAt] at hStage
      have hTakes : grows i = true :=
        hGrown i hStage.1 (hCreated i k (.inr hAt))
      rw [if_pos hTakes] at hStep
      cases hStep
      exact ⟨hOrderly.adds hAt, .of_other nofun nofun⟩
  | releasing i k =>
      simp only [construct, hAt, Option.some.injEq] at hStep
      subst hStep
      exact
        ⟨hOrderly.releases hAt,
          s.created_releaseThread k (.spawning (i + 1))⟩
  | joining k resume =>
      simp only [construct, hAt] at hStep
      rcases hOrderly.joins hAt with ⟨hJoin, hNext⟩
      rw [hJoin] at hStep
      cases hStep
      exact ⟨hNext, s.created_resumed resume⟩
  | testing =>
      simp only [construct, hAt] at hStep
      by_cases hAll : s.workers.length = workerCount
      · rw [if_pos hAll] at hStep
        cases hStep
        exact
          ⟨hOrderly.tests hAt (.inl rfl),
            .of_other nofun nofun⟩
      · rw [if_neg hAll] at hStep
        cases hStep
        exact
          ⟨hOrderly.tests hAt (.inr rfl),
            .of_other nofun nofun⟩
  | entering =>
      simp only [construct, hAt] at hStep
      split at hStep
      case isFalse => cases hStep
      case isTrue hFree =>
        cases hStep
        exact ⟨hOrderly.enters hAt, .of_other nofun nofun⟩
  | locked =>
      simp only [construct, hAt, Option.some.injEq] at hStep
      subst hStep
      exact ⟨hOrderly.leaves hAt, .of_other nofun nofun⟩
  | notifying =>
      simp only [construct, hAt, Option.some.injEq] at hStep
      subst hStep
      exact ⟨hOrderly.wakesAll hAt, .of_other nofun nofun⟩
  | iterating j =>
      simp only [construct, hAt] at hStep
      cases hWorker : s.workers[j]? with
      | some k =>
          rw [hWorker] at hStep
          refine ⟨hOrderly.iterates hAt hWorker hStep, ?_⟩
          rcases Option.map_eq_some_iff.mp hStep with
            ⟨t, _, rfl⟩
          exact .of_other nofun nofun
      | none =>
          rw [hWorker] at hStep
          cases hStep
          exact
            ⟨hOrderly.iterated hAt hWorker,
              .of_other nofun nofun⟩
  | clearing j =>
      simp only [construct, hAt] at hStep
      cases hWorker : s.workers[j]? with
      | some k =>
          rw [hWorker] at hStep
          cases hStep
          exact
            ⟨hOrderly.clears hAt hWorker,
              s.created_releaseThread k (.clearing (j + 1))⟩
      | none =>
          rw [hWorker] at hStep
          cases hStep
          exact ⟨hOrderly.cleared hAt, .of_other nofun nofun⟩
  | freeing =>
      simp only [construct, hAt, Option.some.injEq] at hStep
      subst hStep
      exact ⟨hOrderly.freed hAt, .of_other nofun nofun⟩
  | succeeded => simp [construct, hAt] at hStep
  | failed => simp [construct, hAt] at hStep

theorem Arranged.next
    {l : ConstructionStep}
    (hGrown : Grown workerCount spawn grows)
    (hArranged : s.Arranged workerCount spawn)
    (hStep : step workerCount spawn grows s l = some s') :
    s'.Arranged workerCount spawn := by
  rcases hArranged with ⟨hOrderly, hCreated⟩
  cases l with
  | construct => exact hOrderly.constructs hGrown hCreated hStep
  | thread k =>
      have hRun : s.runThread k = some s' := hStep
      refine ⟨hOrderly.runThread hRun, ?_⟩
      unfold PoolConstruction.runThread at hRun
      split at hRun
      case isTrue =>
        rcases Option.map_eq_some_iff.mp hRun with ⟨p, _, rfl⟩
        exact hCreated
      case isFalse => cases hRun
  | spurious k =>
      unfold step at hStep
      dsimp only at hStep
      split at hStep
      case isTrue =>
        cases hStep
        exact ⟨hOrderly.wakeThread k, hCreated⟩
      case isFalse => cases hStep

theorem Arranged.of_reachable
    (hGrown : Grown workerCount spawn grows)
    (hReach :
      (system workerCount spawn grows).Reachable s) :
    s.Arranged workerCount spawn := by
  apply hReach.invariant
  · intro s hInit
    rw [hInit]
    by_cases hZero : workerCount = 0
    · subst hZero
      refine ⟨⟨?_, nofun, nofun⟩, .of_other nofun nofun⟩
      exact fun k hk => absurd hk (Nat.not_lt_zero k)
    · have hNew :
          new workerCount =
            { new workerCount with phase := .spawning 0 } := by
        unfold new
        rw [if_neg hZero]
      rw [hNew]
      refine ⟨⟨?_, nofun, nofun⟩, .of_other nofun nofun⟩
      refine ⟨Nat.zero_le _, Nat.le_refl _, rfl, ?_⟩
      exact fun k hk => absurd hk (Nat.not_lt_zero k)
  · intro s l s' hArranged hStep
    exact hArranged.next hGrown hStep

end PoolConstruction

end KDoth
