import KDoth.Threads.TaskReferences

/-
  The user data of tasks: what a post retains is released
  once, when the pool is through with the task.

  Key definitions include:
    * `KWorkerPool.Gone`
    * `KWorkerPool.Released`

  Key theorems include:
    * `KWorkerPool.gone_of_next`
    * `KWorkerPool.Released.next`
-/

------------------------------------------------------------
-- User Data
------------------------------------------------------------

namespace KDoth

namespace KWorkerPool

variable {W : Nat}
variable {s : KWorkerPool W}
variable {l : PoolStep W}

/-
  The pool is through with a task: it was in the list when
  the list was destroyed, or its execution is over and its
  worker is past the release of its user data.
-/
def Gone (s : KWorkerPool W) (t : Nat) : Prop :=
  t ∈ s.dropped ∨
    (t ∈ s.executed ∧ ∀ w, s.phase w ≠ .ran t)

/- The user data of a task is released when it is gone. -/
structure Released (s : KWorkerPool W) : Prop where
  given : ∀ t o, (t, o) ∈ s.retained ↔ s.given t = some o
  keys : (s.retained.map Prod.fst).Nodup
  known : ∀ p ∈ s.retained, p.1 < s.nextTask
  nodup : s.released.Nodup
  subset : ∀ p ∈ s.released, p ∈ s.retained
  userData :
    ∀ t o,
      (s.task t).userData = some o ↔
        (t, o) ∈ s.retained ∧ (t, o) ∉ s.released
  gone :
    ∀ t o,
      (t, o) ∈ s.retained →
        ((t, o) ∈ s.released ↔ s.Gone t)

/- Only an accepted task can be gone. -/
theorem Placed.accepted_of_gone
    (hPlaced : s.Placed)
    {t : Nat}
    (hGone : s.Gone t) :
    t ∈ s.accepted := by
  rcases hGone with hDropped | ⟨hExecuted, _⟩
  · rw [hPlaced.queued.order]
    exact List.mem_append_right _ hDropped
  · rcases hPlaced.dispatched.executed t hExecuted with
      ⟨w, hMem⟩
    exact hPlaced.queued.dequeued_accepted hMem

/- A worker in the release of user data stays there. -/
theorem ran_of_next
    (hEnabled : s.Enabled l)
    {w : Fin W}
    {t : Nat}
    (hRan : s.phase w = .ran t) :
    (s.next l).phase w = .ran t ∨
      l = .workerReleaseUserData w t := by
  have hAfterPhase :
      (s.next l).phase w = ((s.next l).workers w).phase := rfl
  cases worker_of_next hEnabled w with
  | same hSame =>
      left
      rw [hAfterPhase, hSame]
      exact hRan
  | advances hStep _ =>
      cases hStep with
      | releasesUserData hPhase =>
          rw [hRan] at hPhase
          cases hPhase
          exact .inr rfl
      | waits hChecks _ _ =>
          rcases hChecks with ⟨_, hPhase, _⟩ | ⟨_, hPhase, _⟩ <;>
            rw [hRan] at hPhase <;> cases hPhase
      | leaves hChecks _ _ =>
          rcases hChecks with ⟨_, hPhase, _⟩ | ⟨_, hPhase, _⟩ <;>
            rw [hRan] at hPhase <;> cases hPhase
      | takes hChecks _ =>
          rcases hChecks with ⟨_, hPhase, _⟩ | ⟨_, hPhase, _⟩ <;>
            rw [hRan] at hPhase <;> cases hPhase
      | woken hPhase
      | lock hPhase
      | relock hPhase
      | starts hPhase
      | finishes hPhase
      | releasesTask hPhase =>
          rw [hRan] at hPhase
          cases hPhase

/- A worker comes there from the execution of its task. -/
theorem ran_before
    (hEnabled : s.Enabled l)
    {w : Fin W}
    {t : Nat}
    (hRan : (s.next l).phase w = .ran t) :
    s.phase w = .ran t ∨ s.phase w = .running t := by
  unfold phase at hRan
  cases worker_of_next hEnabled w with
  | same hSame =>
      rw [hSame] at hRan
      exact .inl hRan
  | advances hStep hAfter =>
      rw [hAfter] at hRan
      cases hStep with
      | finishes hPhase =>
          cases hRan
          exact .inr hPhase
      | leaves _ _ _ =>
          dsimp only at hRan
          split at hRan <;> cases hRan
      | releasesTask _ =>
          dsimp only at hRan
          split at hRan <;> cases hRan
      | _ => cases hRan

/- A task that is gone stays so. -/
theorem Placed.gone_next
    (hPlaced : s.Placed)
    (hEnabled : s.Enabled l)
    {t : Nat}
    (hGone : s.Gone t) :
    (s.next l).Gone t := by
  rcases hGone with hDropped | ⟨hExecuted, hNone⟩
  · left
    cases queue_of_next (s := s) (l := l) with
    | same _ _ _ _ _ hEq =>
        rw [hEq]
        exact hDropped
    | appends _ _ _ _ hEq =>
        rw [hEq]
        exact hDropped
    | takes _ _ _ _ _ _ hEq =>
        rw [hEq]
        exact hDropped
    | destroys hStep _ _ _ _ =>
        subst hStep
        rw [hPlaced.queued.dropped hEnabled.1] at hDropped
        cases hDropped
  · right
    refine ⟨executed_subset hExecuted, ?_⟩
    intro w hRan
    rcases ran_before hEnabled hRan with hBefore | hRunning
    · exact hNone w hBefore
    · have hPending : (s.phase w).pending = some t := by
        rw [hRunning]
        rfl
      exact
        hPlaced.dispatched.notYet w t hPending hExecuted

/- A task is gone with its user data or with the list. -/
theorem gone_of_next
    (hEnabled : s.Enabled l)
    {t : Nat}
    (hGone : (s.next l).Gone t) :
    s.Gone t ∨ (∃ w, l = .workerReleaseUserData w t) ∨
      (l = .destroy ∧ t ∈ s.tasks) := by
  rcases hGone with hDropped | ⟨hExecuted, hNone⟩
  · cases queue_of_next (s := s) (l := l) with
    | same _ _ _ _ _ hEq =>
        rw [hEq] at hDropped
        exact .inl (.inl hDropped)
    | appends _ _ _ _ hEq =>
        rw [hEq] at hDropped
        exact .inl (.inl hDropped)
    | takes _ _ _ _ _ _ hEq =>
        rw [hEq] at hDropped
        exact .inl (.inl hDropped)
    | destroys hStep _ _ _ hEq =>
        rw [hEq] at hDropped
        exact .inr (.inr ⟨hStep, hDropped⟩)
  · rcases executed_of_next (s := s) (l := l) with
      ⟨w, u, hStep, hEq⟩ | ⟨_, hEq⟩
    · rw [hEq] at hExecuted
      rcases List.mem_append.mp hExecuted with hOld | hNew
      · left
        right
        refine ⟨hOld, ?_⟩
        intro v hRan
        rcases ran_of_next hEnabled hRan with hStill | hClear
        · exact hNone v hStill
        · rw [hStep] at hClear
          cases hClear
      · exfalso
        rw [List.mem_singleton.mp hNew] at hNone
        apply hNone w
        rw [hStep]
        change (s.setPhase w (.ran u)).phase w = .ran u
        rw [phase_setPhase, if_pos rfl]
    · rw [hEq] at hExecuted
      by_cases hSome : ∃ v, s.phase v = .ran t
      · rcases hSome with ⟨v, hRan⟩
        rcases ran_of_next hEnabled hRan with hStill | hClear
        · exact absurd hStill (hNone v)
        · exact .inr (.inl ⟨v, hClear⟩)
      · left
        right
        exact ⟨hExecuted, fun v hRan => hSome ⟨v, hRan⟩⟩

/- The last release of a task finds no user data. -/
theorem Released.lastRelease_nil
    (hReleased : s.Released)
    (hPlaced : s.Placed)
    (hCounted : s.Counted)
    (hEnabled : s.Enabled l)
    {t : Nat}
    (hStep :
      l = .postReleaseTask t ∨ ∃ w, l = .workerReleaseTask w t) :
    (s.task t).lastRelease t = [] ∧
      (s.task t).release.userData = (s.task t).userData := by
  have hNone :
      (s.task t).refCount = 1 → (s.task t).userData = none := by
    intro hLast
    by_contra hSome
    rcases Option.ne_none_iff_exists'.mp hSome with ⟨o, hData⟩
    rcases (hReleased.userData t o).mp hData with
      ⟨hRetained, hNot⟩
    have hNotGone : ¬ s.Gone t := fun hGone =>
      hNot ((hReleased.gone t o hRetained).mpr hGone)
    rcases hStep with rfl | ⟨w, rfl⟩
    · have hAppended : s.posts t = .appended := hEnabled
      have hReferred : s.Referred t := by
        have hAccepted : t ∈ s.accepted :=
          (hPlaced.queued.posts t).mpr (.inl hAppended)
        rw [hPlaced.queued.order] at hAccepted
        rcases List.mem_append.mp hAccepted with hMem | hDropped
        · rcases List.mem_append.mp hMem with hFirst | hTasks
          · rcases List.mem_map.mp hFirst with
              ⟨⟨u, w⟩, hPair, hEq⟩
            have hSame : u = t := hEq
            subst hSame
            rcases hPlaced.dispatched.pending w u hPair with
              hExecuted | hPending
            · by_contra hNotReferred
              apply hNotGone
              right
              refine ⟨hExecuted, ?_⟩
              intro v hRan
              apply hNotReferred
              right
              refine ⟨v, .inr ?_⟩
              rw [hRan]
              rfl
            · exact .inr ⟨w, .inl hPending⟩
          · exact .inl hTasks
        · exact absurd (.inl hDropped) hNotGone
      have hCount := hCounted.referred t hReferred
      rw [hAppended, hLast] at hCount
      cases hCount
    · have hDone : (s.phase w).done = some t := by
        rw [hEnabled.1]
        rfl
      apply hNotGone
      right
      refine ⟨hPlaced.dispatched.done w t hDone, ?_⟩
      intro v hRan
      have hSame : v = w := by
        apply hPlaced.queued.worker_unique
          (hPlaced.dispatched.holds v t (.inr ?_))
          (hPlaced.dispatched.holds w t (.inr hDone))
        rw [hRan]
        rfl
      rw [hSame, hEnabled.1] at hRan
      cases hRan
  unfold KWorkerPoolTask.lastRelease KWorkerPoolTask.release
  by_cases hLast : (s.task t).refCount = 1
  · rw [if_pos hLast, if_pos hLast, hNone hLast]
    exact ⟨rfl, rfl⟩
  · rw [if_neg hLast, if_neg hLast]
    exact ⟨rfl, rfl⟩

/- The list has the only reference to what it drops. -/
theorem Placed.last_of_destroy
    (hPlaced : s.Placed)
    (hCounted : s.Counted)
    (hEnabled : s.Enabled .destroy)
    {t : Nat}
    (hMem : t ∈ s.tasks) :
    (s.task t).refCount = 1 := by
  rcases hEnabled with ⟨_, c, _, hDeInit, _⟩
  have hSome : s.deInit ≠ none := by
    rw [hDeInit]
    simp
  have hCount := hCounted.referred t (.inl hMem)
  rcases hPlaced.closed.posts hSome t with hPhase | hPhase <;>
    rw [hPhase] at hCount <;> exact hCount

/-
  Releasing the user data of some tasks, which are then gone,
  keeps the account. Other steps release that of no task.
-/
theorem Released.of_cleared
    {s' : KWorkerPool W}
    (hReleased : s.Released)
    (S : Nat → Prop)
    (log : List (Nat × UserData))
    (hRetained : s'.retained = s.retained)
    (hNext : s'.nextTask = s.nextTask)
    (hGiven : s'.given = s.given)
    (hLog : s'.released = s.released ++ log)
    (hNodup : log.Nodup)
    (hMem :
      ∀ t o,
        (t, o) ∈ log ↔ S t ∧ (s.task t).userData = some o)
    (hCleared : ∀ t, S t → (s'.task t).userData = none)
    (hKept :
      ∀ t,
        ¬ S t → (s'.task t).userData = (s.task t).userData)
    (hGone : ∀ t, s'.Gone t ↔ s.Gone t ∨ S t) :
    s'.Released := by
  constructor
  · rw [hRetained, hGiven]
    exact hReleased.given
  · rw [hRetained]
    exact hReleased.keys
  · rw [hRetained, hNext]
    exact hReleased.known
  · rw [hLog]
    apply List.nodup_append.mpr
    refine ⟨hReleased.nodup, hNodup, ?_⟩
    rintro ⟨t, o⟩ hOld ⟨u, x⟩ hNew hEq
    cases hEq
    have hData := ((hMem t o).mp hNew).2
    exact ((hReleased.userData t o).mp hData).2 hOld
  · rintro ⟨t, o⟩ hIn
    rw [hLog] at hIn
    rw [hRetained]
    rcases List.mem_append.mp hIn with hOld | hNew
    · exact hReleased.subset _ hOld
    · have hData := ((hMem t o).mp hNew).2
      exact ((hReleased.userData t o).mp hData).1
  · intro t o
    rw [hRetained, hLog, List.mem_append, not_or, hMem,
      ← and_assoc, ← hReleased.userData]
    by_cases hIn : S t
    · rw [hCleared t hIn]
      simp [hIn]
    · rw [hKept t hIn]
      simp [hIn]
  · intro t o hIn
    rw [hRetained] at hIn
    rw [hLog, List.mem_append, hMem, hGone,
      hReleased.gone t o hIn]
    constructor
    · rintro (hOld | hNew)
      · exact .inl hOld
      · exact .inr hNew.1
    · rintro (hOld | hNew)
      · exact .inl hOld
      · by_cases hAlready : s.Gone t
        · exact .inl hAlready
        · right
          refine ⟨hNew, ?_⟩
          rw [hReleased.userData]
          refine ⟨hIn, ?_⟩
          rw [hReleased.gone t o hIn]
          exact hAlready

/- A step that leaves no task behind. -/
theorem Placed.gone_iff
    (hPlaced : s.Placed)
    (hEnabled : s.Enabled l)
    {S : Nat → Prop}
    (hClear :
      ∀ w t, l = .workerReleaseUserData w t → S t)
    (hDestroy : l = .destroy → ∀ t ∈ s.tasks, S t)
    (hGoes : ∀ t, S t → (s.next l).Gone t)
    (t : Nat) :
    (s.next l).Gone t ↔ s.Gone t ∨ S t := by
  constructor
  · intro hGone
    rcases gone_of_next hEnabled hGone with
      hOld | ⟨w, hStep⟩ | ⟨hStep, hMem⟩
    · exact .inl hOld
    · exact .inr (hClear w t hStep)
    · exact .inr (hDestroy hStep t hMem)
  · rintro (hOld | hNew)
    · exact hPlaced.gone_next hEnabled hOld
    · exact hGoes t hNew

/- Nothing is released in a step that does not clear tasks. -/
theorem Released.of_kept
    (hReleased : s.Released)
    (hPlaced : s.Placed)
    (hEnabled : s.Enabled l)
    (hClear : ∀ w t, l ≠ .workerReleaseUserData w t)
    (hDestroy : l ≠ .destroy)
    (hRetained : (s.next l).retained = s.retained)
    (hNext : (s.next l).nextTask = s.nextTask)
    (hGiven : (s.next l).given = s.given)
    (hLog : (s.next l).released = s.released)
    (hKept :
      ∀ t,
        ((s.next l).task t).userData = (s.task t).userData) :
    (s.next l).Released := by
  apply hReleased.of_cleared (fun _ => False) [] hRetained hNext
    hGiven
  · rw [hLog, List.append_nil]
  · exact List.nodup_nil
  · intro t o
    simp
  · intro t hFalse
    exact hFalse.elim
  · intro t _
    exact hKept t
  · apply hPlaced.gone_iff hEnabled
    · intro w t hStep
      exact hClear w t hStep
    · intro hStep
      exact absurd hStep hDestroy
    · intro t hFalse
      exact hFalse.elim

/- The key of the next post is not in use. -/
theorem Released.new_key
    (hReleased : s.Released)
    (x : UserData) :
    (s.nextTask, x) ∉ s.retained := by
  intro hBad
  exact Nat.lt_irrefl _ (hReleased.known _ hBad)

/- The user data of a post under its key, if there is any. -/
theorem mem_keyed
    {data : Option UserData}
    {t u : Nat}
    {o : UserData} :
    (t, o) ∈ data.toList.map (fun o => (u, o)) ↔
      t = u ∧ data = some o := by
  cases data with
  | none => simp
  | some x => simp [eq_comm]

theorem nodup_keyed
    (data : Option UserData)
    (u : Nat) :
    (data.toList.map (fun o => (u, o))).Nodup := by
  cases data <;> simp

theorem mem_retained_begin
    (o : Option UserData)
    (t : Nat)
    (x : UserData) :
    (t, x) ∈ (s.next (.postBegin o)).retained ↔
      (t, x) ∈ s.retained ∨ (t = s.nextTask ∧ o = some x) := by
  have hLog :
      (s.next (.postBegin o)).retained =
        s.retained ++ o.toList.map (fun x => (s.nextTask, x)) :=
    rfl
  rw [hLog, List.mem_append, mem_keyed]

/- No task goes when a post begins, and none was to be gone. -/
theorem Placed.gone_begin
    (hPlaced : s.Placed)
    {o : Option UserData}
    (hEnabled : s.Enabled (.postBegin o))
    (t : Nat) :
    (s.next (.postBegin o)).Gone t ↔ s.Gone t := by
  have hIff :=
    hPlaced.gone_iff (S := fun _ => False) hEnabled
      nofun nofun nofun t
  simpa using hIff

theorem Placed.not_gone_next
    (hPlaced : s.Placed) :
    ¬ s.Gone s.nextTask := by
  intro hBad
  have hAccepted := hPlaced.accepted_of_gone hBad
  rw [hPlaced.queued.posts,
    hPlaced.fresh.posts s.nextTask le_rfl] at hAccepted
  rcases hAccepted with hFalse | hFalse | hFalse <;>
    cases hFalse

/- The user data of a post is retained with a new key. -/
theorem Released.begins
    (hReleased : s.Released)
    (hPlaced : s.Placed)
    {o : Option UserData}
    (hEnabled : s.Enabled (.postBegin o)) :
    (s.next (.postBegin o)).Released := by
  have hMem := mem_retained_begin (s := s) o
  have hLog :
      (s.next (.postBegin o)).retained =
        s.retained ++ o.toList.map (fun x => (s.nextTask, x)) :=
    rfl
  have hReleasedEq :
      (s.next (.postBegin o)).released = s.released := rfl
  constructor
  · intro t x
    rw [hMem]
    by_cases hSelf : t = s.nextTask
    · subst hSelf
      have hGivenEq :
          (s.next (.postBegin o)).given s.nextTask = o :=
        Function.update_self ..
      rw [hGivenEq]
      simp [hReleased.new_key]
    · have hGivenEq :
          (s.next (.postBegin o)).given t = s.given t :=
        Function.update_of_ne hSelf ..
      rw [hGivenEq, hReleased.given]
      simp [hSelf]
  · rw [hLog, List.map_append, List.nodup_append]
    refine ⟨hReleased.keys, ?_, ?_⟩
    · cases o <;> simp
    · intro a ha b hb hEq
      rcases List.mem_map.mp ha with ⟨p, hOld, rfl⟩
      have hBound := hReleased.known p hOld
      cases o with
      | none => cases hb
      | some y =>
          have hKey : b = s.nextTask := by simpa using hb
          omega
  · rintro ⟨t, x⟩ hIn
    have hNext :
        (s.next (.postBegin o)).nextTask = s.nextTask + 1 := rfl
    rw [hNext]
    rcases (hMem t x).mp hIn with hOld | ⟨hSelf, _⟩
    · exact Nat.lt_succ_of_lt (hReleased.known _ hOld)
    · simp [hSelf]
  · exact hReleased.nodup
  · rintro ⟨t, x⟩ hIn
    exact (hMem t x).mpr (.inl (hReleased.subset _ hIn))
  · intro t x
    rw [hMem, hReleasedEq]
    by_cases hSelf : t = s.nextTask
    · subst hSelf
      have hTask :
          (s.next (.postBegin o)).task s.nextTask =
            { task := true, userData := o, refCount := 1 } :=
        Function.update_self ..
      have hNot : (s.nextTask, x) ∉ s.released := fun hBad =>
        hReleased.new_key x (hReleased.subset _ hBad)
      rw [hTask]
      simp [hReleased.new_key, hNot]
    · have hTask :
          (s.next (.postBegin o)).task t = s.task t :=
        Function.update_of_ne hSelf ..
      rw [hTask, hReleased.userData]
      simp [hSelf]
  · intro t x hIn
    rw [hReleasedEq, hPlaced.gone_begin hEnabled]
    rcases (hMem t x).mp hIn with hOld | ⟨hSelf, _⟩
    · exact hReleased.gone t x hOld
    · subst hSelf
      constructor
      · intro hBad
        exact
          absurd (hReleased.subset _ hBad)
            (hReleased.new_key x)
      · intro hBad
        exact absurd hBad hPlaced.not_gone_next

/- A task is gone once its worker has cleared it. -/
theorem Placed.gone_clear
    (hPlaced : s.Placed)
    {w : Fin W}
    {u : Nat}
    (hEnabled : s.Enabled (.workerReleaseUserData w u)) :
    (s.next (.workerReleaseUserData w u)).Gone u := by
  have hDone : (s.phase w).done = some u := by
    rw [hEnabled.1]
    rfl
  right
  refine
    ⟨executed_subset (hPlaced.dispatched.done w u hDone), ?_⟩
  intro v hRan
  rcases ran_before hEnabled hRan with hBefore | hRunning
  · have hSame : v = w := by
      apply hPlaced.queued.worker_unique
        (hPlaced.dispatched.holds v u (.inr ?_))
        (hPlaced.dispatched.holds w u (.inr hDone))
      rw [hBefore]
      rfl
    rw [hSame] at hRan
    have hPhase :
        (s.next (.workerReleaseUserData w u)).phase w =
          .released u := by
      rcases s.next_workerReleaseUserData w u with
        ⟨p, calls, n, d, hEq⟩
      rw [hEq]
      change (s.setPhase w (.released u)).phase w = _
      rw [phase_setPhase, if_pos rfl]
    rw [hPhase] at hRan
    cases hRan
  · have hPending : (s.phase v).pending = some u := by
      rw [hRunning]
      rfl
    exact
      hPlaced.dispatched.notYet v u hPending
        (hPlaced.dispatched.done w u hDone)

/- A worker releases the user data that its task has. -/
theorem Released.clears
    (hReleased : s.Released)
    (hPlaced : s.Placed)
    {w : Fin W}
    {u : Nat}
    (hEnabled : s.Enabled (.workerReleaseUserData w u))
    (hTask :
      (s.next (.workerReleaseUserData w u)).task =
        Function.update s.task u
          { s.task u with task := false, userData := none })
    (hRetained :
      (s.next (.workerReleaseUserData w u)).retained =
        s.retained)
    (hLog :
      (s.next (.workerReleaseUserData w u)).released =
        s.released ++
          (s.task u).userData.toList.map (fun o => (u, o)))
    (hNext :
      (s.next (.workerReleaseUserData w u)).nextTask =
        s.nextTask)
    (hGiven :
      (s.next (.workerReleaseUserData w u)).given =
        s.given) :
    (s.next (.workerReleaseUserData w u)).Released := by
  apply hReleased.of_cleared (fun t => t = u) _ hRetained hNext
    hGiven hLog
  · exact nodup_keyed _ u
  · intro t o
    rw [mem_keyed]
    constructor
    · rintro ⟨rfl, hData⟩
      exact ⟨rfl, hData⟩
    · rintro ⟨rfl, hData⟩
      exact ⟨rfl, hData⟩
  · intro t hSelf
    rw [hSelf, hTask, Function.update_self]
  · intro t hOther
    rw [hTask, Function.update_of_ne hOther]
  · apply hPlaced.gone_iff hEnabled
    · intro v t hStep
      cases hStep
      rfl
    · intro hBad
      cases hBad
    · intro t hSelf
      rw [hSelf]
      exact hPlaced.gone_clear hEnabled

/- The list releases the tasks that are still in it. -/
theorem Released.destroys
    (hReleased : s.Released)
    (hPlaced : s.Placed)
    (hCounted : s.Counted)
    (hEnabled : s.Enabled .destroy) :
    (s.next .destroy).Released := by
  have hLast :
      ∀ t ∈ s.tasks, (s.task t).refCount = 1 := fun t hMem =>
    hPlaced.last_of_destroy hCounted hEnabled hMem
  have hLog :
      ∀ t ∈ s.tasks,
        (s.task t).lastRelease t =
          (s.task t).userData.toList.map (fun o => (t, o)) := by
    intro t hMem
    rw [KWorkerPoolTask.lastRelease, if_pos (hLast t hMem)]
  have hMem :
      ∀ t o,
        (t, o) ∈ s.tasks.flatMap
            (fun t => (s.task t).lastRelease t) ↔
          t ∈ s.tasks ∧ (s.task t).userData = some o := by
    intro t o
    rw [List.mem_flatMap]
    constructor
    · rintro ⟨u, hIn, hPair⟩
      rw [hLog u hIn] at hPair
      rcases mem_keyed.mp hPair with ⟨rfl, hData⟩
      exact ⟨hIn, hData⟩
    · rintro ⟨hIn, hData⟩
      refine ⟨t, hIn, ?_⟩
      rw [hLog t hIn]
      exact mem_keyed.mpr ⟨rfl, hData⟩
  have hRetained :
      (s.next .destroy).retained = s.retained := rfl
  apply hReleased.of_cleared (fun t => t ∈ s.tasks)
    (s.tasks.flatMap (fun t => (s.task t).lastRelease t))
    hRetained rfl rfl rfl
  · rw [List.nodup_flatMap]
    refine ⟨?_, ?_⟩
    · intro t hIn
      rw [hLog t hIn]
      exact nodup_keyed _ t
    · apply hPlaced.queued.nodup_tasks.imp_of_mem
      rintro t u ht hu hNe ⟨v, o⟩ hFirst hSecond
      have hFirst : (v, o) ∈ (s.task t).lastRelease t := hFirst
      have hSecond : (v, o) ∈ (s.task u).lastRelease u := hSecond
      rw [hLog t ht] at hFirst
      rw [hLog u hu] at hSecond
      exact
        hNe
          ((mem_keyed.mp hFirst).1.symm.trans
            (mem_keyed.mp hSecond).1)
  · exact hMem
  · intro t hIn
    have hTask :
        (s.next .destroy).task t = (s.task t).release :=
      if_pos hIn
    rw [hTask, KWorkerPoolTask.release, if_pos (hLast t hIn)]
  · intro t hNot
    have hTask : (s.next .destroy).task t = s.task t :=
      if_neg hNot
    rw [hTask]
  · apply hPlaced.gone_iff hEnabled
    · intro w t hBad
      cases hBad
    · intro _ t hIn
      exact hIn
    · intro t hIn
      exact .inl hIn

/- A task that is appended keeps its user data. -/
theorem userData_append
    (u t : Nat) :
    ((s.next (.postAppend u)).task t).userData =
      (s.task t).userData := by
  rcases update_cases s.task u
      { s.task u with
        refCount := (s.task u).refCount + 1 } t with
    hSame | ⟨rfl, hNew⟩
  · exact congrArg KWorkerPoolTask.userData hSame
  · exact (congrArg KWorkerPoolTask.userData hNew :)

/- So does one whose other references are given up. -/
theorem userData_release
    {u : Nat}
    (hTask :
      (s.next l).task =
        Function.update s.task u (s.task u).release)
    (hData :
      (s.task u).release.userData = (s.task u).userData)
    (t : Nat) :
    ((s.next l).task t).userData = (s.task t).userData := by
  rw [hTask]
  rcases update_cases s.task u (s.task u).release t with
    hSame | ⟨rfl, hNew⟩
  · rw [hSame]
  · rw [hNew, hData]

theorem Released.next
    (hReleased : s.Released)
    (hPlaced : s.Placed)
    (hCounted : s.Counted)
    (hEnabled : s.Enabled l) :
    (s.next l).Released := by
  cases task_of_next hEnabled with
  | same _ hClear hDestroy _ hTask hRetained hLog hNext hGiven =>
      apply hReleased.of_kept hPlaced hEnabled hClear hDestroy
        hRetained hNext hGiven hLog
      intro t
      rw [hTask]
  | begins hStep =>
      subst hStep
      exact hReleased.begins hPlaced hEnabled
  | @appends u hStep =>
      subst hStep
      exact
        hReleased.of_kept hPlaced hEnabled nofun nofun rfl rfl
          rfl rfl (userData_append u)
  | @releases u hStep hTask hRetained hLog hNext hGiven =>
      rcases hReleased.lastRelease_nil hPlaced hCounted hEnabled
          hStep with ⟨hNil, hData⟩
      rw [hNil, List.append_nil] at hLog
      have hClear : ∀ w t, l ≠ .workerReleaseUserData w t := by
        rintro w t rfl
        rcases hStep with hBad | ⟨v, hBad⟩ <;> cases hBad
      have hDestroy : l ≠ .destroy := by
        rintro rfl
        rcases hStep with hBad | ⟨v, hBad⟩ <;> cases hBad
      apply hReleased.of_kept hPlaced hEnabled hClear hDestroy
        hRetained hNext hGiven hLog
      exact userData_release hTask hData
  | @clears w u hStep hTask hRetained hLog hNext hGiven =>
      subst hStep
      exact
        hReleased.clears hPlaced hEnabled hTask hRetained hLog
          hNext hGiven
  | destroys hStep =>
      subst hStep
      exact hReleased.destroys hPlaced hCounted hEnabled

end KWorkerPool

end KDoth
