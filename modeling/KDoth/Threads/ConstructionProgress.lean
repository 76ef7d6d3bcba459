import KDoth.Threads.OrderlyConstruction

/-
  An orderly construction gets to its end: the constructor
  goes on, or waits for a thread that can.

  Key definitions include:
    * `StartedThread.distance`
    * `PoolConstruction.steps`
    * `PoolConstruction.rank`

  Key theorems include:
    * `PoolConstruction.Orderly.steps_lt`
    * `PoolConstruction.Arranged.progress`
-/

------------------------------------------------------------
-- Progress
------------------------------------------------------------

namespace KDoth

namespace StartedThread

variable {t t' : StartedThread}

/- The steps of a thread to its end with the flag set. -/
def distance (t : StartedThread) : Nat :=
  match t.phase with
  | .start => 4
  | .deInit => 3
  | .loop => 2
  | .entered => 1
  | .waiting => 0
  | .awake => 4
  | .reentered => 3
  | .ended => 0

theorem distance_le (t : StartedThread) : t.distance ≤ 4 := by
  unfold distance
  split <;> simp

/- Who has the mutex can give it up. -/
theorem Inside.exits
    (hInside : t.Inside)
    (free shutdown : Bool) :
    ∃ t', t.run free shutdown = some (t', .gives) := by
  unfold run
  rcases hInside with hPhase | hPhase <;> rw [hPhase] <;>
    exact ⟨_, rfl⟩

/- With the flag set a thread that can go on gets nearer. -/
theorem advances
    {free : Bool}
    (hEnded : t.phase ≠ .ended)
    (hWaiting : t.phase ≠ .waiting)
    (hFree :
      t.phase = .loop ∨ t.phase = .awake → free = true) :
    ∃ t' use,
      t.run free true = some (t', use) ∧
        t'.distance < t.distance := by
  unfold run
  cases hPhase : t.phase with
  | start =>
      refine ⟨_, _, rfl, ?_⟩
      by_cases hLast : t.refCount = 1 <;>
        simp [distance, hPhase, hLast]
  | deInit =>
      refine ⟨_, _, rfl, ?_⟩
      simp [distance, hPhase]
  | loop =>
      have hFree := hFree (.inl hPhase)
      subst hFree
      refine ⟨_, _, rfl, ?_⟩
      simp [distance, hPhase]
  | entered =>
      refine ⟨_, _, rfl, ?_⟩
      simp [distance, hPhase, waitOrLeave]
  | waiting => exact absurd hPhase hWaiting
  | awake =>
      have hFree := hFree (.inr hPhase)
      subst hFree
      refine ⟨_, _, rfl, ?_⟩
      simp [distance, hPhase]
  | reentered =>
      refine ⟨_, _, rfl, ?_⟩
      cases hRun : t.isRunning <;>
        simp [distance, hPhase, waitOrLeave, hRun]
  | ended => exact absurd hPhase hEnded

end StartedThread

end KDoth

namespace KDoth

namespace PoolConstruction

open StartedThread

variable {workerCount : Nat}
variable {spawn : Nat → SpawnAnswer}
variable {grows : Nat → Bool}
variable {s s' : PoolConstruction}

/- The steps of the constructor to its return, at most. -/
def steps
    (workerCount : Nat)
    (phase : ConstructionPhase) : Nat :=
  match phase with
  | .spawning i => 4 * (workerCount - i) + 3 * workerCount + 8
  | .storing i _ =>
      4 * (workerCount - (i + 1)) + 3 * workerCount + 11
  | .adding i _ =>
      4 * (workerCount - (i + 1)) + 3 * workerCount + 10
  | .releasing i _ =>
      4 * (workerCount - (i + 1)) + 3 * workerCount + 9
  | .joining _ (.clearing j) => 2 * (workerCount - j) + 3
  | .joining _ (.spawning _) => 0
  | .testing => 3 * workerCount + 7
  | .entering => 3 * workerCount + 6
  | .locked => 3 * workerCount + 5
  | .notifying => 3 * workerCount + 4
  | .iterating j => (workerCount - j) + 2 * workerCount + 3
  | .clearing j => 2 * (workerCount - j) + 2
  | .freeing => 1
  | .succeeded => 0
  | .failed => 0

/- What the constructor waits for. -/
def pending (s : PoolConstruction) : Nat :=
  match s.phase with
  | .entering => if s.mutex = none then 0 else 1
  | .iterating j =>
      2 * (s.threads j).distance +
        (if s.mutex = none then 0 else 1)
  | _ => 0

def rank
    (workerCount : Nat)
    (s : PoolConstruction) : Nat :=
  16 * steps workerCount s.phase + s.pending

theorem pending_lt (s : PoolConstruction) : s.pending < 16 := by
  unfold pending
  split
  · split <;> simp
  · rename_i j _
    have hLe := (s.threads j).distance_le
    split <;> omega
  · simp

/- The constructor that goes on is nearer to its return. -/
theorem Orderly.steps_lt
    (hOrderly : s.Orderly workerCount)
    (hStep : s.construct workerCount spawn grows = some s') :
    steps workerCount s'.phase < steps workerCount s.phase := by
  unfold construct at hStep
  cases hAt : s.phase with
  | spawning i =>
      simp only [hAt] at hStep
      by_cases hMore : i < workerCount
      · rw [if_pos hMore] at hStep
        cases hSpawn : spawn i <;> rw [hSpawn] at hStep <;>
          cases hStep <;> simp only [steps] <;> omega
      · rw [if_neg hMore] at hStep
        cases hStep
        simp only [steps]
        omega
  | storing i k =>
      simp only [hAt, Option.some.injEq] at hStep
      subst hStep
      simp only [steps]
      omega
  | adding i k =>
      simp only [hAt] at hStep
      split at hStep <;> cases hStep <;> simp only [steps] <;>
        omega
  | releasing i k =>
      simp only [hAt, Option.some.injEq] at hStep
      subst hStep
      unfold releaseThread
      dsimp only
      split <;>
        simp only [steps, ConstructionPhase.resumed] <;> omega
  | joining k resume =>
      simp only [hAt] at hStep
      rcases hOrderly.joins hAt with ⟨hJoin, _⟩
      rw [hJoin] at hStep
      cases hStep
      have hStage := hOrderly.stage
      unfold Stage at hStage
      rw [hAt] at hStage
      rcases hStage with ⟨_, j, rfl, _⟩
      simp only [steps, ConstructionPhase.resumed]
      omega
  | testing =>
      simp only [hAt, Option.some.injEq] at hStep
      subst hStep
      dsimp only
      split <;> simp only [steps] <;> omega
  | entering =>
      simp only [hAt] at hStep
      split at hStep <;> cases hStep
      simp only [steps]
      omega
  | locked
  | notifying
  | freeing =>
      simp only [hAt, Option.some.injEq] at hStep
      subst hStep
      simp only [steps]
      omega
  | iterating j =>
      simp only [hAt] at hStep
      have hIterates := hOrderly.stage_iterating hAt
      have hMost := hIterates.most
      cases hWorker : s.workers[j]? with
      | some k =>
          rw [hWorker] at hStep
          have hBound :=
            (worker_of_range hIterates.workers hWorker).2
          rcases Option.map_eq_some_iff.mp hStep with ⟨t, _, rfl⟩
          simp only [steps]
          omega
      | none =>
          rw [hWorker] at hStep
          cases hStep
          simp only [steps]
          omega
  | clearing j =>
      simp only [hAt] at hStep
      have hCleared := hOrderly.stage_clearing hAt
      have hMost := hCleared.most
      cases hWorker : s.workers[j]? with
      | some k =>
          rw [hWorker] at hStep
          have hBound :=
            (worker_of_range hCleared.workers hWorker).2
          cases hStep
          unfold releaseThread
          dsimp only
          split <;>
            simp only [steps, ConstructionPhase.resumed] <;> omega
      | none =>
          rw [hWorker] at hStep
          cases hStep
          simp only [steps]
          omega
  | succeeded => simp [hAt] at hStep
  | failed => simp [hAt] at hStep

/- Where the constructor cannot go on by itself. -/
inductive Waits (s : PoolConstruction) : Prop
| returned
    (hReturned : s.Returned)
| enters
    (hAt : s.phase = .entering)
    (hMutex : s.mutex ≠ none)
| joins {j : Nat}
    (hAt : s.phase = .iterating j)
    (hBound : j < s.started)
    (hEnded : (s.threads j).phase ≠ .ended)

theorem Orderly.waits
    (hOrderly : s.Orderly workerCount)
    (hNone : s.construct workerCount spawn grows = none) :
    s.Waits := by
  unfold construct at hNone
  cases hAt : s.phase with
  | spawning i =>
      simp only [hAt] at hNone
      by_cases hMore : i < workerCount
      · rw [if_pos hMore] at hNone
        cases hSpawn : spawn i <;> rw [hSpawn] at hNone <;>
          cases hNone
      · rw [if_neg hMore] at hNone
        cases hNone
  | adding i k =>
      simp only [hAt] at hNone
      split at hNone <;> cases hNone
  | joining k resume =>
      simp only [hAt] at hNone
      rw [(hOrderly.joins hAt).1] at hNone
      cases hNone
  | entering =>
      simp only [hAt] at hNone
      split at hNone
      case isTrue => cases hNone
      case isFalse hMutex => exact .enters hAt hMutex
  | iterating j =>
      simp only [hAt] at hNone
      have hIterates := hOrderly.stage_iterating hAt
      cases hWorker : s.workers[j]? with
      | some k =>
          rcases worker_of_range hIterates.workers hWorker with
            ⟨rfl, hBound⟩
          rw [hWorker] at hNone
          apply Waits.joins hAt hBound
          intro hEnded
          have hJoin := Option.map_eq_none_iff.mp hNone
          unfold StartedThread.join at hJoin
          rw [if_pos hEnded] at hJoin
          split at hJoin <;> cases hJoin
      | none =>
          rw [hWorker] at hNone
          cases hNone
  | clearing j =>
      simp only [hAt] at hNone
      split at hNone <;> cases hNone
  | succeeded => exact .returned (.inl hAt)
  | failed => exact .returned (.inr hAt)
  | _ => simp [hAt] at hNone

/- A step of a thread that the constructor waits for. -/
theorem Arranged.moves
    {k : Nat}
    {t : StartedThread}
    {use : MutexUse}
    (hGrown : Grown workerCount spawn grows)
    (hArranged : s.Arranged workerCount spawn)
    (hBound : k < s.started)
    (hRun :
      (s.threads k).run s.mutex.isNone s.shutdown =
        some (t, use))
    (hPending :
      (s.moveThread k t (s.useMutex k use)).pending <
        s.pending) :
    (system workerCount spawn grows).Nears
      (Arranged workerCount spawn) (rank workerCount) s := by
  have hStep :
      step workerCount spawn grows s (.thread k) =
        some (s.moveThread k t (s.useMutex k use)) := by
    change s.runThread k = _
    rw [PoolConstruction.runThread, if_pos hBound, hRun]
    rfl
  refine
    ⟨_, .single (l := .thread k) hStep,
      hArranged.next hGrown hStep, ?_⟩
  have hPhase :
      (s.moveThread k t (s.useMutex k use)).phase = s.phase :=
    rfl
  unfold rank
  rw [hPhase]
  omega

/- The thread that has the mutex gives it up. -/
theorem Arranged.frees
    (hGrown : Grown workerCount spawn grows)
    (hArranged : s.Arranged workerCount spawn)
    (hMutex : s.mutex ≠ none)
    (hAt :
      s.phase = .entering ∨
        ∃ j, s.phase = .iterating j ∧ ¬ (s.threads j).Inside) :
    (system workerCount spawn grows).Nears
      (Arranged workerCount spawn) (rank workerCount) s := by
  rcases Option.ne_none_iff_exists'.mp hMutex with
    ⟨owner, hOwner⟩
  cases owner with
  | constructor =>
      have hLocked := hArranged.orderly.lock hOwner
      rcases hAt with hBad | ⟨j, hBad, _⟩ <;>
        rw [hLocked] at hBad <;> cases hBad
  | thread k =>
      rcases hArranged.orderly.owner k hOwner with ⟨hBound, hInside⟩
      rcases hInside.exits s.mutex.isNone s.shutdown with
        ⟨t, hRun⟩
      apply hArranged.moves hGrown hBound hRun
      rcases hAt with hEntering | ⟨j, hIterating, hOutside⟩
      · unfold pending
        have hPhase :
            (s.moveThread k t (s.useMutex k .gives)).phase =
              .entering := hEntering
        rw [hPhase, hEntering]
        simp [moveThread, useMutex, hMutex]
      · have hPhase :
            (s.moveThread k t (s.useMutex k .gives)).phase =
              .iterating j := hIterating
        have hOther :
            (s.moveThread k t (s.useMutex k .gives)).threads j =
              s.threads j := by
          rcases s.threads_moveThread_cases k t
              (s.useMutex k .gives) j with
            ⟨rfl, _⟩ | ⟨_, hEq⟩
          · exact absurd hInside hOutside
          · exact hEq
        unfold pending
        rw [hPhase, hIterating]
        dsimp only
        rw [hOther]
        simp [moveThread, useMutex, hMutex]

/- Some thread goes on while the constructor joins one. -/
theorem Arranged.joins
    {j : Nat}
    (hGrown : Grown workerCount spawn grows)
    (hArranged : s.Arranged workerCount spawn)
    (hAt : s.phase = .iterating j)
    (hBound : j < s.started)
    (hEnded : (s.threads j).phase ≠ .ended) :
    (system workerCount spawn grows).Nears
      (Arranged workerCount spawn) (rank workerCount) s := by
  have hIterates := hArranged.orderly.stage_iterating hAt
  rcases hIterates.rest j hBound (Nat.le_refl j) with
    ⟨_, hUp⟩
  by_cases hLock :
      s.mutex ≠ none ∧ ¬ (s.threads j).Inside
  · exact
      hArranged.frees hGrown hLock.1
        (.inr ⟨j, hAt, hLock.2⟩)
  · have hFree :
        (s.threads j).phase = .loop ∨
            (s.threads j).phase = .awake →
          s.mutex.isNone = true := by
      intro hOutside
      by_contra hHeld
      apply hLock
      constructor
      · simpa using hHeld
      · rintro (hIn | hIn) <;> rw [hIn] at hOutside <;>
          rcases hOutside with hBad | hBad <;> cases hBad
    rcases advances hEnded hUp hFree with
      ⟨t, use, hRun, hLess⟩
    rw [← hIterates.flag] at hRun
    apply hArranged.moves hGrown hBound hRun
    have hPhase :
        (s.moveThread j t (s.useMutex j use)).phase =
          .iterating j := hAt
    have hSelf :
        (s.moveThread j t (s.useMutex j use)).threads j =
          t := Function.update_self ..
    unfold pending
    rw [hPhase, hAt]
    dsimp only
    rw [hSelf]
    split <;> split <;> omega

/- The constructor returns, or gets nearer to its return. -/
theorem Arranged.progress
    (hGrown : Grown workerCount spawn grows)
    (hArranged : s.Arranged workerCount spawn) :
    s.Returned ∨
      (system workerCount spawn grows).Nears
        (Arranged workerCount spawn) (rank workerCount) s := by
  cases hStep : s.construct workerCount spawn grows with
  | some s' =>
      right
      have hLess := hArranged.orderly.steps_lt hStep
      have hSmall := s'.pending_lt
      refine
        ⟨s', .single (l := .construct) hStep,
          hArranged.next (l := .construct) hGrown hStep, ?_⟩
      unfold rank
      omega
  | none =>
      cases hArranged.orderly.waits hStep with
      | returned hReturned => exact .inl hReturned
      | enters hAt hMutex =>
          exact .inr (hArranged.frees hGrown hMutex (.inl hAt))
      | joins hAt hBound hEnded =>
          exact .inr (hArranged.joins hGrown hAt hBound hEnded)

end PoolConstruction

end KDoth
