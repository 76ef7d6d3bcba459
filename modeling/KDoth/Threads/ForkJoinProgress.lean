import KDoth.Threads.ForkJoin
import KDoth.Threads.Staffing

/-
  A client that forks and joins over a pool gets past its
  wait under any scheduling, as long as the pool is not shut
  down, and other tasks do not hold up all workers.

  Key definitions include:
    * `ForkJoinStep.isOwn`
    * `ForkJoinStep.price`
    * `ForkJoin.work`
    * `ForkJoin.Foreign`
    * `ForkJoin.Stopped`

  Key theorems include:
    * `ForkJoin.work_next`
    * `ForkJoin.Stopped.held_or_waits`
    * `ForkJoin.Stopped.joined`
    * `ForkJoin.always_joins`
-/

------------------------------------------------------------
-- Work
------------------------------------------------------------

namespace KDoth

/- The steps that a thread in the latch still takes. -/
def LatchPhase.work : LatchPhase → Nat
| .outside => 0
| .waiting => 0
| .counted => 1
| .passed => 1
| .awake => 2
| .signaling => 4

def ForkJoinPhase.work : ForkJoinPhase → Nat
| .forking => 2
| .joining => 0
| .joined => 0

namespace ForkJoinStep

variable {W : Nat}

/- What the client, its tasks and the pool do themselves. -/
def isOwn : ForkJoinStep W → Bool
| .spurious => false
| .pool l => l.isOwn
| _ => true

/- The steps that follow from a step of others. -/
def price : ForkJoinStep W → Nat
| .spurious => 2
| .pool l => l.price
| _ => 0

end ForkJoinStep

namespace ForkJoin

variable {W : Nat} {n : UInt64}
variable {s : ForkJoin W} {l : ForkJoinStep W}

/- The steps until the client has joined. -/
def work (n : UInt64) (s : ForkJoin W) : Nat :=
  s.pool.work + total LatchPhase.work s.latch.phase +
      s.client.work +
    ((2 * W + 11) * (n.toNat - s.forked.length) +
      5 * (n.toNat - s.counted.length))

/- A turn of a wait ends it or blocks. -/
theorem work_waitTurn
    {Thread : Type}
    (latch : KCountdownLatch Thread) :
    latch.waitTurn.work ≤ 1 := by
  rcases latch.waitTurn_cases with ⟨_, hTurn⟩ | ⟨_, hTurn⟩
  · rw [hTurn]
    exact le_rfl
  · rw [hTurn]
    exact Nat.zero_le _

/- A broadcast wakes nobody but the client. -/
theorem Latched.total_wakeAll
    (hLatched : Latched n s) :
    total LatchPhase.work s.latch.wakeAll.phase ≤
      total LatchPhase.work s.latch.phase + 2 := by
  have hOnly :
      s.latch.wakeAll.phase =
        Function.update s.latch.phase none
          (s.latch.wakeAll.phase none) := by
    funext u
    cases u with
    | none => rw [Function.update_self]
    | some w =>
        have hNe : some w ≠ none := nofun
        rw [Function.update_of_ne hNe]
        apply if_neg
        intro hWaits
        rcases hLatched.worker w with
          hBad | ⟨hBad | hBad, _⟩ <;>
          rw [hWaits] at hBad <;> cases hBad
  have hTotal :=
    total_update LatchPhase.work s.latch.phase none
      (s.latch.wakeAll.phase none)
  have hMost :
      (s.latch.wakeAll.phase none).work ≤
        (s.latch.phase none).work + 2 := by
    by_cases hWaits : s.latch.phase none = .waiting
    · have hAwake : s.latch.wakeAll.phase none = .awake :=
        if_pos hWaits
      rw [hAwake]
      exact Nat.le_add_left ..
    · have hSame :
          s.latch.wakeAll.phase none = s.latch.phase none :=
        if_neg hWaits
      rw [hSame]
      exact Nat.le_add_right ..
  rw [hOnly]
  omega

/- A task is posted. -/
theorem work_fork
    (hTurn : s.Turn n .fork) :
    work n (s.next .fork) + 1 ≤ work n s := by
  have hPool :=
    s.pool.work_of_begin (some latchData)
  have hMore := hTurn.2.1
  have hLength :
      (s.next .fork).forked.length = s.forked.length + 1 :=
    List.length_append
  have hLess :
      (2 * W + 11) * (n.toNat - (s.forked.length + 1)) +
          (2 * W + 11) =
        (2 * W + 11) * (n.toNat - s.forked.length) := by
    rw [← Nat.mul_succ]
    congr 1
    omega
  unfold work
  rw [hLength]
  change
    (s.pool.next (.postBegin (some latchData))).work +
            total LatchPhase.work s.latch.phase +
          s.client.work +
        ((2 * W + 11) * (n.toNat - (s.forked.length + 1)) +
          5 * (n.toNat - s.counted.length)) +
      1 ≤ _
  omega

/- A thread goes on in the latch. -/
theorem work_latch
    {k : LatchStep (Option (Fin W))}
    (u : Option (Fin W))
    (p : LatchPhase)
    (hLatch : l.latchStep = some k)
    (hPool : l.poolStep = none)
    (hPhase :
      (s.latch.next k).phase =
        Function.update s.latch.phase u p)
    (hForked : (s.next l).forked = s.forked)
    (hPaid :
      p.work + (s.next l).client.work +
            5 * (n.toNat - (s.next l).counted.length) +
          l.isOwn.toNat ≤
        (s.latch.phase u).work + s.client.work +
            5 * (n.toNat - s.counted.length) +
          l.price) :
    work n (s.next l) + l.isOwn.toNat ≤ work n s + l.price := by
  have hTotal := total_update LatchPhase.work s.latch.phase u p
  unfold work
  rw [next_pool_of_none hPool, next_latch hLatch, hPhase,
    hForked]
  omega

/-
  Every step of the client, its tasks and the pool brings
  their work down.
-/
theorem work_next
    (hJoins : Joins n s)
    (hOpen : s.pool.Open)
    (hTurn : s.Turn n l)
    (hPool : ∀ k, l.poolStep = some k → s.pool.Enabled k)
    (hLatch : ∀ k, l.latchStep = some k → s.latch.Enabled k) :
    work n (s.next l) + l.isOwn.toNat ≤ work n s + l.price := by
  cases l with
  | fork => exact work_fork hTurn
  | pool k =>
      have hWork := KWorkerPool.work_next hOpen (hPool k rfl)
      change
        (s.pool.next k).work +
                total LatchPhase.work s.latch.phase +
              s.client.work +
            ((2 * W + 11) * (n.toNat - s.forked.length) +
              5 * (n.toNat - s.counted.length)) +
          k.isOwn.toNat ≤
        work n s + k.price
      unfold work
      omega
  | wait =>
      have hFrom : s.latch.phase none = .outside := hLatch _ rfl
      have hTo := work_waitTurn s.latch
      apply work_latch none s.latch.waitTurn rfl rfl rfl rfl
      rw [hTurn.1]
      change
        _ + 0 + 5 * (n.toNat - s.counted.length) + 1 ≤
          _ + 2 + 5 * (n.toNat - s.counted.length) + 0
      omega
  | recheck =>
      have hFrom : s.latch.phase none = .awake := hLatch _ rfl
      have hTo := work_waitTurn s.latch
      apply work_latch none s.latch.waitTurn rfl rfl rfl rfl
      rw [hFrom]
      change
        _ + s.client.work + 5 * (n.toNat - s.counted.length) +
            1 ≤
          2 + s.client.work + 5 * (n.toNat - s.counted.length)
      omega
  | spurious =>
      apply work_latch none .awake rfl rfl rfl rfl
      change
        2 + s.client.work + 5 * (n.toNat - s.counted.length) +
            0 ≤
          _ + s.client.work +
              5 * (n.toNat - s.counted.length) + 2
      omega
  | waitReturn =>
      have hFrom : s.latch.phase none = .passed := hLatch _ rfl
      have hClient : s.client = .joining := hTurn
      apply work_latch none .outside rfl rfl rfl rfl
      rw [hFrom, hClient]
      change
        0 + 0 + 5 * (n.toNat - s.counted.length) + 1 ≤
          1 + 0 + 5 * (n.toNat - s.counted.length) + 0
      omega
  | countDown w t =>
      have hFrom : s.latch.phase (some w) = .outside :=
        hLatch _ rfl
      have hLess :=
        hJoins.tallied.length_lt hTurn.2.1
          (hJoins.tallied.not_counted hTurn)
      have hLength :
          (s.next (.countDown w t)).counted.length =
            s.counted.length + 1 := List.length_append
      apply work_latch (some w) _ rfl rfl rfl rfl
      rw [hFrom, hLength]
      change
        _ + s.client.work +
              5 * (n.toNat - (s.counted.length + 1)) + 1 ≤
          0 + s.client.work +
              5 * (n.toNat - s.counted.length) + 0
      have hTo :
          LatchPhase.work
              (if
                (KCountdownLatch.countDownSection
                  s.latch.count).2
              then .signaling
              else .counted) ≤ 4 := by
        split
        · exact le_rfl
        · exact Nat.le_of_ble_eq_true rfl
      omega
  | notifyAll w =>
      have hFrom : s.latch.phase (some w) = .signaling :=
        hLatch _ rfl
      have hWake := hJoins.latched.total_wakeAll
      have hKept :
          s.latch.wakeAll.phase (some w) = .signaling := by
        rw [← hFrom]
        apply if_neg
        rw [hFrom]
        nofun
      have hTotal :=
        total_update LatchPhase.work s.latch.wakeAll.phase
          (some w) .counted
      rw [hKept] at hTotal
      change
        s.pool.work +
                total LatchPhase.work
                  (Function.update s.latch.wakeAll.phase
                    (some w) .counted) +
              s.client.work +
            ((2 * W + 11) * (n.toNat - s.forked.length) +
              5 * (n.toNat - s.counted.length)) +
          1 ≤ work n s + 0
      change _ + 4 = _ + 1 at hTotal
      unfold work
      omega
  | countDownReturn w =>
      have hFrom : s.latch.phase (some w) = .counted :=
        hLatch _ rfl
      apply work_latch (some w) .outside rfl rfl rfl rfl
      rw [hFrom]
      change
        0 + s.client.work + 5 * (n.toNat - s.counted.length) +
            1 ≤
          1 + s.client.work +
              5 * (n.toNat - s.counted.length) + 0
      omega

end ForkJoin

end KDoth

------------------------------------------------------------
-- At Rest
------------------------------------------------------------

namespace KDoth

/- Only the end of a procedure waits for what it does. -/
theorem PoolStep.finished_of_not_return
    {W : Nat}
    {k : PoolStep W}
    (hOther : k.isReturn = false) :
    k.finished = none := by
  cases k with
  | workerFinish w t => cases hOther
  | _ => rfl

namespace ForkJoin

variable {W : Nat} {n : UInt64} {s : ForkJoin W}

/-
  A worker comes back from a task that is not one of the
  client: from its procedure, or the release of its user data.
-/
def Foreign (s : ForkJoin W) (l : ForkJoinStep W) : Prop :=
  ∃ w t,
    t ∉ s.forked ∧
      (l = .pool (.workerFinish w t) ∨
        l = .pool (.workerReleaseUserData w t))

/-
  Nothing goes on but for wakeups and other uses of it, and
  workers that may come back from tasks of others.
-/
def Stopped (n : UInt64) (s : ForkJoin W) : Prop :=
  ∀ l,
    l.isOwn = true → ¬ s.Foreign l →
      (forkJoin W n).step s l = none

/- The worker is in a task that is not one of the client. -/
def Held (s : ForkJoin W) (w : Fin W) : Prop :=
  ∃ t,
    t ∉ s.forked ∧
      (s.pool.phase w = .running t ∨ s.pool.phase w = .ran t)

theorem not_foreign_of_pool
    {k : PoolStep W}
    (hOther : k.isReturn = false) :
    ¬ s.Foreign (.pool k) := by
  rintro ⟨w, t, _, hSame | hSame⟩ <;>
    cases hSame <;> cases hOther

theorem not_foreign_of_latch
    {l : ForkJoinStep W}
    (hPool : l.poolStep = none) :
    ¬ s.Foreign l := by
  rintro ⟨w, t, _, hSame | hSame⟩ <;>
    rw [hSame] at hPool <;> cases hPool

theorem Stopped.not_enabled
    {l : ForkJoinStep W}
    (hStopped : Stopped n s)
    (hOwn : l.isOwn = true)
    (hForeign : ¬ s.Foreign l)
    (hTurn : s.Turn n l)
    (hPool : ∀ k, l.poolStep = some k → s.pool.Enabled k)
    (hLatch : ∀ k, l.latchStep = some k → s.latch.Enabled k) :
    False := by
  have hStep := step_of_enabled hTurn hPool hLatch
  rw [hStopped l hOwn hForeign] at hStep
  cases hStep

/- A step on the latch alone. -/
theorem Stopped.not_latch
    {l : ForkJoinStep W}
    {k : LatchStep (Option (Fin W))}
    (hStopped : Stopped n s)
    (hOwn : l.isOwn = true)
    (hTurn : s.Turn n l)
    (hPool : l.poolStep = none)
    (hLatch : l.latchStep = some k) :
    ¬ s.latch.Enabled k := by
  intro hEnabled
  apply
    hStopped.not_enabled hOwn (not_foreign_of_latch hPool)
      hTurn
  · intro j hSome
    rw [hPool] at hSome
    cases hSome
  · intro j hSome
    rw [hLatch] at hSome
    cases hSome
    exact hEnabled

/- A step of the pool alone. -/
theorem Stopped.not_pool
    {k : PoolStep W}
    (hStopped : Stopped n s)
    (hOwn : k.isOwn = true)
    (hForeign : ¬ s.Foreign (.pool k))
    (hRan : s.Ran k) :
    ¬ s.pool.Enabled k := by
  intro hEnabled
  apply
    hStopped.not_enabled (l := .pool k) hOwn hForeign hRan
  · intro j hSome
    cases hSome
    exact hEnabled
  · intro j hSome
    cases hSome

theorem Stopped.idles
    (hStopped : Stopped n s) :
    s.pool.Idles := by
  intro k hOwn hOther
  apply hStopped.not_pool hOwn (not_foreign_of_pool hOther)
  intro p hMem
  rw [PoolStep.finished_of_not_return hOther] at hMem
  cases hMem

/- No procedure is in the latch. -/
theorem Stopped.outside
    (hStopped : Stopped n s)
    (hLatched : Latched n s)
    (w : Fin W) :
    s.latch.phase (some w) = .outside := by
  rcases hLatched.worker w with
    hOutside | ⟨hSignals | hCounted, _⟩
  · exact hOutside
  · exact
      absurd hSignals
        (hStopped.not_latch (l := .notifyAll w) rfl trivial rfl
          rfl)
  · exact
      absurd hCounted
        (hStopped.not_latch (l := .countDownReturn w) rfl
          trivial rfl rfl)

/- No procedure of the client's tasks runs. -/
theorem Stopped.not_running
    (hStopped : Stopped n s)
    (hJoins : Joins n s)
    (hOpen : s.pool.Open)
    {w : Fin W}
    {t : Nat}
    (hForked : t ∈ s.forked) :
    s.pool.phase w ≠ .running t := by
  intro hRunning
  have hOutside := hStopped.outside hJoins.latched w
  have hRan : s.Ran (.workerFinish w t) := by
    rintro p hMem _
    cases hMem
    refine ⟨?_, hOutside⟩
    by_contra hBefore
    exact
      hStopped.not_latch (l := .countDown w t) rfl
        ⟨hRunning, hForked, by simpa using hBefore⟩ rfl rfl
        hOutside
  have hForeign :
      ¬ s.Foreign (.pool (.workerFinish w t)) := by
    rintro ⟨v, u, hNot, hSame | hSame⟩ <;> cases hSame
    exact hNot hForked
  exact
    absurd ⟨hRunning, hOpen.free w⟩
      (hStopped.not_pool (k := .workerFinish w t) rfl hForeign
        hRan)

/- Each worker is in a task of others, or waits. -/
theorem Stopped.held_or_waits
    (hStopped : Stopped n s)
    (hJoins : Joins n s)
    (hOpen : s.pool.Open)
    (w : Fin W) :
    s.Held w ∨ s.pool.phase w = .waiting := by
  have hIdles := hStopped.idles
  rcases hIdles.phase_eq hOpen w with hWaits | hInside
  · exact .inr hWaits
  · left
    rcases hIdles.returns hOpen hInside with
      ⟨t, ⟨hRunning, _⟩ | ⟨hRan, hEnabled⟩⟩
    · refine ⟨t, ?_, .inl hRunning⟩
      intro hForked
      exact
        hStopped.not_running hJoins hOpen hForked hRunning
    · refine ⟨t, ?_, .inr hRan⟩
      intro hForked
      have hForeign :
          ¬ s.Foreign
            (.pool (.workerReleaseUserData w t)) := by
        rintro ⟨v, u, hNot, hSame | hSame⟩ <;> cases hSame
        exact hNot hForked
      exact
        hStopped.not_pool rfl hForeign nofun hEnabled

/- A worker waits where it comes back from no task. -/
theorem Stopped.waits
    (hStopped : Stopped n s)
    (hJoins : Joins n s)
    (hOpen : s.pool.Open)
    (hNothing :
      ∀ l, l.isOwn = true → (forkJoin W n).step s l = none)
    (w : Fin W) :
    s.pool.phase w = .waiting := by
  have hIdles := hStopped.idles
  have hNot :
      ∀ {k : PoolStep W},
        k.isOwn = true → s.Ran k → ¬ s.pool.Enabled k := by
    intro k hOwn hRan hEnabled
    have hStep :=
      step_of_enabled (n := n) (l := .pool k) hRan
        (by rintro _ ⟨⟩; exact hEnabled) nofun
    rw [hNothing (.pool k) hOwn] at hStep
    cases hStep
  rcases hStopped.held_or_waits hJoins hOpen w with
    ⟨t, hForked, hInside⟩ | hWaits
  · exfalso
    have hTask : (s.pool.phase w).inTask = true := by
      rcases hInside with hPhase | hPhase <;> rw [hPhase] <;>
        rfl
    rcases hIdles.returns hOpen hTask with
      ⟨u, ⟨hRunning, hEnabled⟩ | ⟨_, hEnabled⟩⟩
    · refine hNot rfl ?_ hEnabled
      rintro p hMem hOwnTask
      cases hMem
      exact
        absurd hRunning
          (hStopped.not_running hJoins hOpen hOwnTask)
    · exact
        hNot (k := .workerReleaseUserData w u) rfl nofun
          hEnabled
  · exact hWaits

/- The client's tasks have been executed. -/
theorem Stopped.executed
    (hStopped : Stopped n s)
    (hJoins : Joins n s)
    (hOpen : s.pool.Open)
    (hTasks : s.pool.tasks = [])
    {t : Nat}
    (hForked : t ∈ s.forked) :
    t ∈ s.pool.executed := by
  rcases hStopped.idles.executed hOpen hTasks
      (hJoins.tallied.known t hForked) with
    hExecuted | ⟨w, hRunning⟩
  · exact hExecuted
  · exact
      absurd hRunning
        (hStopped.not_running hJoins hOpen hForked)

/- A client that forks can post another task, or wait. -/
theorem Stopped.not_forking
    (hStopped : Stopped n s)
    (hJoins : Joins n s)
    (hOpen : s.pool.Open) :
    s.client ≠ .forking := by
  intro hForking
  have hPosted : s.Posted := by
    intro t hForked
    exact
      hStopped.idles.post_eq hOpen
        (hJoins.tallied.known t hForked)
  have hMost := hJoins.tallied.most
  by_cases hMore : s.forked.length < n.toNat
  · apply hStopped.not_enabled (l := .fork) rfl
    · rintro ⟨w, t, _, hSame | hSame⟩ <;> cases hSame
    · exact ⟨hForking, hMore, hPosted⟩
    · intro k hSome
      cases hSome
      exact hOpen.refCount_pos
    · intro k hSome
      cases hSome
  · have hFits := hJoins.latched.client
    have hOutside : s.latch.phase none = .outside := by
      rw [hForking] at hFits
      cases hPhase : s.latch.phase none with
      | outside => rfl
      | _ =>
          rw [hPhase] at hFits
          exact hFits.elim
    exact
      hStopped.not_latch (l := .wait) rfl
        ⟨hForking, by omega, hPosted⟩ rfl rfl hOutside

/- A client that waits is woken. -/
theorem Stopped.not_joining
    (hStopped : Stopped n s)
    (hJoins : Joins n s)
    (hOpen : s.pool.Open)
    (hTasks : s.pool.tasks = []) :
    s.client ≠ .joining := by
  intro hJoining
  have hFits := hJoins.latched.client
  rw [hJoining] at hFits
  cases hPhase : s.latch.phase none with
  | awake =>
      exact
        hStopped.not_latch (l := .recheck) rfl hJoining rfl rfl
          hPhase
  | passed =>
      exact
        hStopped.not_latch (l := .waitReturn) rfl hJoining rfl
          rfl hPhase
  | waiting =>
      have hAll : s.forked ⊆ s.counted := by
        intro t hForked
        exact
          hJoins.tallied.finished t hForked
            (hStopped.executed hJoins hOpen hTasks hForked)
      have hLength :=
        (hJoins.tallied.distinct.subperm hAll).length_le
      have hFull : s.forked.length = n.toNat := by
        apply hJoins.tallied.full
        rw [hJoining]
        nofun
      have hCount := hJoins.latched.count
      have hGate := hJoins.gate.count
      cases hJoins.gate.stage with
      | closed hCompleted _ _ _ => omega
      | opening u _ hSignals _ =>
          have hSignaling := (hSignals u).mpr rfl
          cases u with
          | none =>
              rw [hPhase] at hSignaling
              cases hSignaling
          | some w =>
              rw [hStopped.outside hJoins.latched w]
                at hSignaling
              cases hSignaling
      | opened _ _ hNobody _ => exact hNobody none hPhase
  | _ =>
      rw [hPhase] at hFits
      exact hFits.elim

/- Where nothing goes on and no task is left, it joined. -/
theorem Stopped.joined
    (hStopped : Stopped n s)
    (hJoins : Joins n s)
    (hOpen : s.pool.Open)
    (hTasks : s.pool.tasks = []) :
    s.client = .joined ∧
      s.forked.length = n.toNat ∧
        ∀ t ∈ s.forked, t ∈ s.pool.executed := by
  have hJoined : s.client = .joined := by
    cases hClient : s.client with
    | joined => rfl
    | forking =>
        exact
          absurd hClient (hStopped.not_forking hJoins hOpen)
    | joining =>
        exact
          absurd hClient
            (hStopped.not_joining hJoins hOpen hTasks)
  refine ⟨hJoined, ?_, ?_⟩
  · apply hJoins.tallied.full
    rw [hJoined]
    nofun
  · intro t hForked
    exact hStopped.executed hJoins hOpen hTasks hForked

/- Nothing goes on where the client joined an idle pool. -/
theorem step_of_joined
    (hOpen : s.pool.Open)
    (hJoined : s.client = .joined)
    (hOutside : ∀ w, s.latch.phase (some w) = .outside)
    (hWaits : ∀ w, s.pool.phase w = .waiting)
    (hPosts :
      ∀ t < s.pool.nextTask, s.pool.posts t = .returned)
    {l : ForkJoinStep W}
    (hOwn : l.isOwn = true) :
    (forkJoin W n).step s l = none := by
  cases hStep : (forkJoin W n).step s l with
  | none => rfl
  | some r =>
      exfalso
      rcases step_inv hStep with ⟨hTurn, hPool, hLatch, _⟩
      cases l with
      | fork =>
          have hBad := hTurn.1
          rw [hJoined] at hBad
          cases hBad
      | wait =>
          have hBad := hTurn.1
          rw [hJoined] at hBad
          cases hBad
      | recheck =>
          have hBad : s.client = .joining := hTurn
          rw [hJoined] at hBad
          cases hBad
      | waitReturn =>
          have hBad : s.client = .joining := hTurn
          rw [hJoined] at hBad
          cases hBad
      | spurious => cases hOwn
      | pool k =>
          exact hOpen.stops hWaits hPosts hOwn (hPool k rfl)
      | countDown w t =>
          have hBad := hTurn.1
          rw [hWaits w] at hBad
          cases hBad
      | notifyAll w =>
          have hBad : s.latch.phase (some w) = .signaling :=
            hLatch _ rfl
          rw [hOutside w] at hBad
          cases hBad
      | countDownReturn w =>
          have hBad : s.latch.phase (some w) = .counted :=
            hLatch _ rfl
          rw [hOutside w] at hBad
          cases hBad

end ForkJoin

end KDoth

------------------------------------------------------------
-- Joining Under Any Scheduling
------------------------------------------------------------

namespace KDoth

namespace ForkJoin

variable {W : Nat} {n : UInt64} {s : ForkJoin W}
variable {latch : KCountdownLatch (Option (Fin W))}
variable {ls : List (ForkJoinStep W)}

/- What there is to do at first. -/
theorem work_new
    (hNew : KCountdownLatch.new n = some latch) :
    work n (new W latch) =
      2 * W + 2 + (2 * W + 16) * n.toNat := by
  rcases KCountdownLatch.new_inv hNew with
    ⟨_, _, _, _, hOutside⟩
  have hLatch : total LatchPhase.work latch.phase = 0 := by
    apply total_eq_zero_iff.mpr
    intro u
    rw [hOutside u]
    rfl
  have hPool := KWorkerPool.work_new (W := W)
  have hTasks :
      (2 * W + 16) * n.toNat =
        (2 * W + 11) * n.toNat + 5 * n.toNat :=
    Nat.add_mul (2 * W + 11) 5 n.toNat
  show
    (KWorkerPool.new W).work +
            total LatchPhase.work latch.phase + 2 +
        ((2 * W + 11) * n.toNat + 5 * n.toNat) =
      _
  omega

/- Without a shutdown in the end there was none before. -/
theorem nextCall_back
    {r : ForkJoin W}
    {l : ForkJoinStep W}
    (hStep : (forkJoin W n).step s l = some r)
    (hNone : r.pool.nextCall = 0) :
    s.pool.nextCall = 0 := by
  rcases step_inv hStep with ⟨_, _, _, rfl⟩
  cases hKind : l.poolStep with
  | none =>
      rw [next_pool_of_none hKind] at hNone
      exact hNone
  | some k =>
      have hMore :=
        KWorkerPool.nextCall_le (s := s.pool) (l := k)
      rw [next_pool hKind] at hNone
      omega

theorem open_of_reachable
    (hPos : 0 < W)
    (hReach : (forkJoin W n).Reachable s)
    (hNone : s.pool.nextCall = 0) :
    s.pool.Open :=
  .of_reachable hPos (pool_reachable hReach) hNone

/- The steps are those that were paid for. -/
theorem countP_isOwn_le
    (hPos : 0 < W)
    (hNew : KCountdownLatch.new n = some latch)
    (hExec : (forkJoin W n).exec (new W latch) ls = some s)
    (hNone : s.pool.nextCall = 0) :
    ls.countP ForkJoinStep.isOwn ≤
      2 * W + 2 + (2 * W + 16) * n.toNat +
        (ls.map ForkJoinStep.price).sum := by
  have hMeets :=
    TransitionSystem.execMeets_of_end
      (fun s : ForkJoin W => s.pool.nextCall = 0)
      (fun _ _ _ => nextCall_back) hExec hNone
  have hCount :=
    TransitionSystem.countP_add_rank_le
      (forkJoin W n).Reachable (work n) ForkJoinStep.isOwn
      ForkJoinStep.price
      (by
        intro s l r hReach hOpen hStep
        refine ⟨hReach.step trivial hStep, ?_⟩
        rcases step_inv hStep with ⟨hTurn, hPool, hLatch, rfl⟩
        exact
          work_next (.of_reachable hReach)
            (open_of_reachable hPos hReach hOpen) hTurn hPool
            hLatch)
      (.init ⟨latch, hNew, rfl⟩) hMeets.2 hExec
  rw [work_new hNew] at hCount
  omega

/-
  A client that forks and joins gets past its wait unless the
  pool is shut down. However all is scheduled, it takes a
  number of steps that is known beforehand, and so many more
  for each other post and each wakeup that nobody asked for.
  Tasks of others may wait for each other or for the client,
  and need not return: where none of the steps can be taken
  but their return, the client has joined and its tasks have
  been executed, unless all workers are in tasks of others.
-/
theorem always_joins
    (hPos : 0 < W)
    (hNew : KCountdownLatch.new n = some latch)
    (hExec : (forkJoin W n).exec (new W latch) ls = some s)
    (hNone : s.pool.nextCall = 0) :
    ls.countP ForkJoinStep.isOwn ≤
        2 * W + 2 + (2 * W + 16) * n.toNat +
          (ls.map ForkJoinStep.price).sum ∧
      ((∀ l, l.isOwn = true → ¬ s.Foreign l →
          (forkJoin W n).step s l = none) →
        (∀ w, s.Held w) ∨
          (s.client = .joined ∧
            s.forked.length = n.toNat ∧
              ∀ t ∈ s.forked, t ∈ s.pool.executed)) ∧
        ((∀ l, l.isOwn = true →
            (forkJoin W n).step s l = none) →
          s.client = .joined ∧
            s.forked.length = n.toNat ∧
              ∀ t ∈ s.forked, t ∈ s.pool.executed) := by
  have hReach : (forkJoin W n).Reachable s :=
    TransitionSystem.reachable_of_exec ⟨latch, hNew, rfl⟩ hExec
  have hJoins := Joins.of_reachable hReach
  have hOpen := open_of_reachable hPos hReach hNone
  have hStaffed :=
    KWorkerPool.Staffed.of_reachable hPos
      (pool_reachable hReach) hNone
  refine
    ⟨countP_isOwn_le hPos hNew hExec hNone, ?_, ?_⟩
  · intro hStopped
    by_cases hSome : ∃ w, s.pool.phase w = .waiting
    · have hIdles := Stopped.idles hStopped
      have hTasks := hIdles.tasks_eq hOpen hStaffed hSome
      exact .inr (Stopped.joined hStopped hJoins hOpen hTasks)
    · left
      intro w
      rcases Stopped.held_or_waits hStopped hJoins hOpen w with
        hHeld | hWaits
      · exact hHeld
      · exact absurd ⟨w, hWaits⟩ hSome
  · intro hNothing
    have hStopped : Stopped n s := fun l hOwn _ =>
      hNothing l hOwn
    have hWaits :=
      hStopped.waits hJoins hOpen hNothing ⟨0, hPos⟩
    have hTasks :=
      hStopped.idles.tasks_eq hOpen hStaffed ⟨_, hWaits⟩
    exact hStopped.joined hJoins hOpen hTasks

/- One task on one worker. -/
theorem always_joins_one :
    ∃ (ls : List (ForkJoinStep 1)) (s : ForkJoin 1),
      (forkJoin 1 1).exec
            (new 1
              { count := 1
                phase := fun _ => .outside
                completed := 0
                broadcasts := 0 })
            ls =
          some s ∧
        ls.countP ForkJoinStep.isOwn ≤ 22 ∧
          s.client = .joined ∧
            s.forked.length = 1 ∧
              ∀ t ∈ s.forked, t ∈ s.pool.executed := by
  have hExec :
      (forkJoin 1 1).exec
          (new 1
            { count := 1
              phase := fun _ => .outside
              completed := 0
              broadcasts := 0 })
          [.pool (.workerLock 0), .pool (.workerEnter 0), .fork,
            .pool (.postLock 0), .pool (.postAppend 0),
            .pool (.postReleaseTask 0),
            .pool (.postNotify 0 fun _ => true), .wait,
            .pool (.workerRelock 0), .pool (.workerRecheck 0),
            .pool (.workerStart 0 0), .countDown 0 0,
            .notifyAll 0, .countDownReturn 0,
            .pool (.workerFinish 0 0),
            .pool (.workerReleaseUserData 0 0),
            .pool (.workerReleaseTask 0 0),
            .pool (.workerLock 0), .pool (.workerEnter 0),
            .recheck, .waitReturn] =
        some _ := rfl
  have hReach : (forkJoin 1 1).Reachable _ :=
    TransitionSystem.reachable_of_exec ⟨_, rfl, rfl⟩ hExec
  have hOpen := open_of_reachable Nat.one_pos hReach rfl
  have hAll := always_joins Nat.one_pos rfl hExec rfl
  refine ⟨_, _, hExec, hAll.1, ?_⟩
  apply hAll.2.2
  intro l hOwn
  refine step_of_joined hOpen rfl ?_ ?_ ?_ hOwn
  · intro w
    rw [Subsingleton.elim w 0]
    rfl
  · intro w
    rw [Subsingleton.elim w 0]
    rfl
  · intro t hLess
    have hZero : t = 0 := Nat.lt_one_iff.mp hLess
    rw [hZero]
    rfl

end ForkJoin

end KDoth
