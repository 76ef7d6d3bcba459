import KDoth.Collections.LiveIteration

/-
  Iterating over an array that the callback changes. The loop
  keeps an index and the length it began with, so it may be
  changed in any way: an index behind the last element is
  visited with NULL.

  Key definitions include:
    * `ArrayIteration.Follows`
    * `ArrayCursor.Account`

  Key theorems include:
    * `ArrayIteration.follows_step`
    * `ArrayCursor.account_step`
    * `ArrayIteration.visits_first_length`
-/

------------------------------------------------------------
-- One Step
------------------------------------------------------------

namespace KDoth

namespace ArrayIteration

open Command MemoryCall

/- The block stores the cursor's items, and it is where it is. -/
structure Follows
    (r : ArrayIteration × Memory (Block KObjectRef))
    (t : ArrayCursor) : Prop where
  stores : KArrayHead.Stores r.2.cell r.1.array t.items
  phase : r.1.phase = t.phase
  count : r.1.count = t.count
  iterated : r.1.iterated = t.iterated

/-
  A step of the cursor does what it does in memory, and
  leaves the cursor where the iteration is.
-/
def Tracks
    (r : ArrayIteration × Memory (Block KObjectRef))
    (t : ArrayCursor)
    (l : IterationStep (KArrayCall KObjectRef)) : Prop :=
  wp (step r.1 l)
    (fun q s' =>
      q.2 = (t.next l).1 ∧ Follows (q.1, s') (t.next l).2)
    (fun _ _ => False) r.2

variable {array : KArrayHead}
variable {s : Memory (Block KObjectRef)}
variable {items : List KObjectRef}
variable {phase : IterationPhase Nat Nat}
variable {count iterated : Nat}

/- The element at the index is read, if there is one. -/
theorem tracks_visit
    (hStores : KArrayHead.Stores s.cell array items) :
    Tracks
      ({ array := array
         phase := phase
         count := count
         iterated := iterated }, s)
      { items := items
        phase := phase
        count := count
        iterated := iterated }
      .visit := by
  unfold Tracks
  cases phase with
  | head i =>
      simp only [step, ArrayCursor.next]
      by_cases hMore : i < count
      · simp only [if_pos hMore, wp_bind]
        apply KArrayHead.wp_getObjectAtIndex hStores
        exact ⟨rfl, hStores, rfl, rfl, rfl⟩
      · simp only [if_neg hMore]
        exact ⟨rfl, hStores, rfl, rfl, rfl⟩
  | _ => exact ⟨rfl, hStores, rfl, rfl, rfl⟩

theorem tracks_call
    (hStores : KArrayHead.Stores s.cell array items)
    (c : KArrayCall KObjectRef)
    (hFree : KArrayHead.Free s.cell array c)
    (hRoom : items.length < 2 ^ 28) :
    Tracks
      ({ array := array
         phase := phase
         count := count
         iterated := iterated }, s)
      { items := items
        phase := phase
        count := count
        iterated := iterated }
      (.call c) := by
  have hShort : array.length < 2 ^ 28 := by
    rw [hStores.length]
    exact hRoom
  simp only [Tracks, step, wp_bind, ArrayCursor.next]
  apply wp_imp (KArrayHead.wp_call hStores hShort c hFree)
  intro q s' hEnd
  exact
    ⟨congrArg IterationValue.result hEnd.1, hEnd.2, rfl, rfl,
      rfl⟩

theorem tracks_answer
    (hStores : KArrayHead.Stores s.cell array items)
    (goesOn : Bool) :
    Tracks
      ({ array := array
         phase := phase
         count := count
         iterated := iterated }, s)
      { items := items
        phase := phase
        count := count
        iterated := iterated }
      (.answer goesOn) := by
  cases goesOn with
  | false => exact ⟨rfl, hStores, rfl, rfl, rfl⟩
  | true =>
      cases phase with
      | inside i => exact ⟨rfl, hStores, rfl, rfl, rfl⟩
      | _ => exact ⟨rfl, hStores, rfl, rfl, rfl⟩

/- An answer of `realloc` that is not free is no step. -/
theorem free_of_step
    {r r' : ArrayIteration × Memory (Block KObjectRef)}
    {c : KArrayCall KObjectRef}
    {v : Except Fault (IterationValue KObjectRef)}
    (hStores : KArrayHead.Stores r.2.cell r.1.array items)
    (hRoom : items.length < 2 ^ 28)
    (hStep : machine.step r (.call c) = some (v, r')) :
    KArrayHead.Free r.2.cell r.1.array c := by
  have hInner := (Machine.only_step_eq_some.mp hStep).2
  have hShort : KArrayHead.Short (r.1.array, r.2) c := by
    show r.1.array.length < 2 ^ 28
    rw [hStores.length]
    exact hRoom
  apply
    KArrayHead.free_of_step (r := (r.1.array, r.2)) hStores
      hShort
  intro hNone
  simp only [KArrayHead.machine, MemoryCall.machine] at hNone
  split at hNone
  next => cases hNone
  next s hCall =>
    have hBind :
        step r.1 (.call c) r.2 = .error .occupied s :=
      bind_of_error hCall
    simp [MemoryCall.machine, hBind] at hInner
  next => cases hNone

/- A step of the iteration is the step of the cursor. -/
theorem follows_step
    (r : ArrayIteration × Memory (Block KObjectRef))
    (t : ArrayCursor)
    (l : IterationStep (KArrayCall KObjectRef))
    (v : Except Fault (IterationValue KObjectRef))
    (r' : ArrayIteration × Memory (Block KObjectRef))
    (hFollows : Follows r t)
    (hRoomy :
      ∀ q, ArrayCursor.machine.step t l = some q → t.Roomy l)
    (hStep : machine.step r l = some (v, r')) :
    ∃ t',
      ArrayCursor.machine.step t l = some (v, t') ∧
        Follows r' t' := by
  rcases Machine.only_step_eq_some.mp hStep with
    ⟨hAllowed, hInner⟩
  rcases hFollows with ⟨hStores, hPhase, hCount, hIterated⟩
  have hAllows : t.phase.Allows l := by
    rw [← hPhase]
    exact hAllowed
  have hTaken :
      ArrayCursor.machine.step t l =
        some (.ok (t.next l).1, (t.next l).2) :=
    Machine.only_step_eq_some.mpr ⟨hAllows, rfl⟩
  have hTracks : Tracks r t l := by
    rcases r with ⟨⟨array, phase, count, iterated⟩, s⟩
    rcases t with ⟨items, phase', count', iterated'⟩
    cases hPhase
    cases hCount
    cases hIterated
    cases l with
    | visit => exact tracks_visit hStores
    | answer goesOn => exact tracks_answer hStores goesOn
    | call c =>
        have hRoom : items.length < 2 ^ 28 := hRoomy _ hTaken
        exact
          tracks_call hStores c
            (free_of_step hStores hRoom hStep) hRoom
  rcases step_of_wp hTracks with ⟨q, s, hEnd, hValue, hNext⟩
  rw [hEnd] at hInner
  cases hInner
  refine ⟨(t.next l).2, ?_, hNext⟩
  rw [hTaken, hValue]

end ArrayIteration

end KDoth

------------------------------------------------------------
-- What Was Visited
------------------------------------------------------------

namespace KDoth

theorem KArrayCall.mem_arrayCall
    {items : List KObjectRef}
    {c : KArrayCall KObjectRef}
    {o : KObjectRef}
    (hMem : o ∈ (ItemSequence.arrayCall items c).2) :
    o ∈ items ++ c.added := by
  cases c with
  | addObject object answer =>
      cases object <;> cases answer <;>
        simpa [ItemSequence.arrayCall, added] using hMem
  | removeObjectAtIndex index =>
      exact
        List.mem_append_left _ (List.mem_of_mem_eraseIdx hMem)
  | removeAllObjects => cases hMem
  | _ => exact List.mem_append_left _ hMem

/- A call that removes nothing appends what it adds. -/
theorem KArrayCall.Keeps.arrayCall
    {items : List KObjectRef}
    {c : KArrayCall KObjectRef}
    (hKeeps : c.Keeps) :
    (ItemSequence.arrayCall items c).2 = items ++ c.added := by
  cases c with
  | addObject object answer =>
      cases object <;> cases answer <;>
        simp [ItemSequence.arrayCall, added]
  | removeObjectAtIndex index => exact hKeeps.elim
  | removeAllObjects => exact hKeeps.elim
  | _ => exact (List.append_nil items).symm

namespace ArrayCursor

open IterationValue

/- How many visits began before the phase. -/
def begun : IterationPhase Nat Nat → Nat → Prop
| .head i, iterated => iterated = i
| .inside i, iterated => iterated = i + 1
| .ended, _ => True

/-
  What the visits so far say: they are counted, their indices
  go from zero and stay below the first length, and no object
  is visited that was neither there at first nor added. As
  long as nothing was removed, they are the first objects.
-/
structure Account
    (items : List KObjectRef)
    (t : ArrayCursor)
    (steps : List (IterationStep (KArrayCall KObjectRef)))
    (values :
      List (Except Fault (IterationValue KObjectRef))) :
    Prop where
  count : t.count = items.length
  iterated : t.iterated = (visits values).length
  begun : begun t.phase t.iterated
  bounded : t.iterated ≤ t.count
  indexed :
    indices values = List.range (visits values).length
  present : ∀ o ∈ t.items, o ∈ items ++ added steps
  known :
    ∀ o, some o ∈ objects values → o ∈ items ++ added steps
  kept :
    (∀ l ∈ steps, Keeps l) →
      t.items = items ++ added steps ∧
        objects values =
          (items.take (visits values).length).map some
  finished :
    ∀ n, .ok (.finished n) ∈ values →
      t.phase = .ended ∧
        n = (visits values).length ∧ n = items.length
  stopped :
    ∀ n, .ok (.stopped n) ∈ values →
      t.phase = .ended ∧ n = (visits values).length

variable {items : List KObjectRef} {t t' : ArrayCursor}
variable
  {steps : List (IterationStep (KArrayCall KObjectRef))}
variable
  {values : List (Except Fault (IterationValue KObjectRef))}

theorem added_concat
    (l : IterationStep (KArrayCall KObjectRef)) :
    added (steps ++ [l]) = added steps ++ addedBy l := by
  simp [added]

theorem account_start
    (items : List KObjectRef) :
    Account items (start items) [] [] := by
  refine
    ⟨rfl, rfl, rfl, Nat.zero_le _, rfl, ?_, nofun, ?_, nofun,
      nofun⟩
  · intro o hMem
    exact List.mem_append_left _ hMem
  · intro _
    exact ⟨(List.append_nil items).symm, rfl⟩

/- An iteration that is not over has returned no count. -/
theorem Account.running
    (hAccount : Account items t steps values)
    (hPhase : t.phase ≠ .ended)
    (n : Nat) :
    .ok (.finished n) ∉ values ∧ .ok (.stopped n) ∉ values := by
  constructor
  · intro hMem
    exact hPhase (hAccount.finished n hMem).1
  · intro hMem
    exact hPhase (hAccount.stopped n hMem).1

/- The element at the index is visited, or NULL. -/
theorem account_visited
    (hAccount : Account items t steps values)
    {i : Nat}
    (hPhase : t.phase = .head i)
    (hMore : i < t.count) :
    Account items
      { t with
        phase := .inside i
        iterated := t.iterated + 1 }
      (steps ++ [.visit])
      (values ++ [.ok (.visited t.items[i]? i)]) := by
  have hVisit :
      visit (.ok (.visited t.items[i]? i)) =
        some (t.items[i]?, i) := rfl
  rcases visits_visited values hVisit with
    ⟨hVisits, hObjects, hIndices⟩
  have hRunning := hAccount.running (by rw [hPhase]; nofun)
  have hBegun : t.iterated = i := by
    have hHead := hAccount.begun
    rw [hPhase] at hHead
    exact hHead
  have hLength : (visits values).length = i := by
    rw [← hAccount.iterated]
    exact hBegun
  have hAdded :
      added (steps ++ [.visit]) = added steps := by
    rw [added_concat]
    exact List.append_nil _
  constructor
  · exact hAccount.count
  · rw [hVisits, List.length_append, ← hAccount.iterated]
    rfl
  · show t.iterated + 1 = i + 1
    rw [hBegun]
  · show t.iterated + 1 ≤ t.count
    omega
  · rw [hVisits, hIndices, hAccount.indexed,
      List.length_append, List.length_singleton,
      List.range_succ, hLength]
  · rw [hAdded]
    exact hAccount.present
  · rw [hAdded, hObjects]
    intro o hMem
    rcases List.mem_append.mp hMem with hOld | hNew
    · exact hAccount.known o hOld
    · have hItem : t.items[i]? = some o :=
        (List.mem_singleton.mp hNew).symm
      exact
        hAccount.present o (List.mem_of_getElem? hItem)
  · intro hKeeps
    rcases
        hAccount.kept fun l hMem =>
          hKeeps l (List.mem_append_left _ hMem) with
      ⟨hItems, hFirst⟩
    have hLt : i < items.length := by
      rw [← hAccount.count]
      exact hMore
    have hItem : t.items[i]? = some items[i] := by
      rw [hItems, List.getElem?_append_left hLt,
        List.getElem?_eq_getElem hLt]
    refine ⟨?_, ?_⟩
    · rw [hAdded]
      exact hItems
    · rw [hObjects, hVisits, List.length_append,
        List.length_singleton, hFirst, hItem, hLength,
        List.take_add_one, List.getElem?_eq_getElem hLt,
        List.map_append]
      rfl
  · intro n hMem
    exact absurd hMem (by simp [hRunning n])
  · intro n hMem
    exact absurd hMem (by simp [hRunning n])

/-
  Where nothing was visited and the items are some of those
  before and of what was added.
-/
theorem account_other
    (hAccount : Account items t steps values)
    {l : IterationStep (KArrayCall KObjectRef)}
    {v : Except Fault (IterationValue KObjectRef)}
    (hRunning : t.phase ≠ .ended)
    (hVisit : visit v = none)
    (hCount : t'.count = t.count)
    (hIterated : t'.iterated = t.iterated)
    (hBegun : ArrayCursor.begun t'.phase t.iterated)
    (hPresent : ∀ o ∈ t'.items, o ∈ t.items ++ addedBy l)
    (hKept : Keeps l → t'.items = t.items ++ addedBy l)
    (hFinished :
      ∀ n, v = .ok (.finished n) →
        t'.phase = .ended ∧
          n = t.iterated ∧ t.iterated = t.count)
    (hStopped :
      ∀ n, v = .ok (.stopped n) →
        t'.phase = .ended ∧ n = t.iterated) :
    Account items t' (steps ++ [l]) (values ++ [v]) := by
  rcases visits_other values hVisit with
    ⟨hVisits, hObjects, hIndices⟩
  have hNone := hAccount.running hRunning
  have hMore :
      ∀ o,
        o ∈ items ++ added steps →
          o ∈ items ++ added (steps ++ [l]) := by
    intro o hMem
    rw [added_concat, ← List.append_assoc]
    exact List.mem_append_left _ hMem
  constructor
  · rw [hCount]
    exact hAccount.count
  · rw [hIterated, hVisits]
    exact hAccount.iterated
  · rw [hIterated]
    exact hBegun
  · rw [hIterated, hCount]
    exact hAccount.bounded
  · rw [hVisits, hIndices]
    exact hAccount.indexed
  · intro o hMem
    rcases List.mem_append.mp (hPresent o hMem) with
      hOld | hNew
    · exact hMore o (hAccount.present o hOld)
    · rw [added_concat, ← List.append_assoc]
      exact List.mem_append_right _ hNew
  · intro o hMem
    rw [hObjects] at hMem
    exact hMore o (hAccount.known o hMem)
  · intro hKeeps
    rcases
        hAccount.kept fun l hMem =>
          hKeeps l (List.mem_append_left _ hMem) with
      ⟨hItems, hFirst⟩
    have hLast : Keeps l := hKeeps l (by simp)
    refine ⟨?_, ?_⟩
    · rw [hKept hLast, hItems, added_concat, List.append_assoc]
    · rw [hObjects, hVisits]
      exact hFirst
  · intro n hMem
    rw [hVisits, ← hAccount.iterated]
    rcases List.mem_append.mp hMem with hOld | hNew
    · exact absurd hOld (hNone n).1
    · rcases hFinished n (List.mem_singleton.mp hNew).symm with
        ⟨hOver, hNumber, hAll⟩
      refine ⟨hOver, hNumber, ?_⟩
      rw [hNumber, hAll]
      exact hAccount.count
  · intro n hMem
    rw [hVisits, ← hAccount.iterated]
    rcases List.mem_append.mp hMem with hOld | hNew
    · exact absurd hOld (hNone n).2
    · exact hStopped n (List.mem_singleton.mp hNew).symm

/- The loop ends at the length it began with. -/
theorem account_finished
    (hAccount : Account items t steps values)
    {i : Nat}
    (hPhase : t.phase = .head i)
    (hLess : ¬ i < t.count) :
    Account items { t with phase := .ended }
      (steps ++ [.visit])
      (values ++ [.ok (.finished t.iterated)]) := by
  have hRunning : t.phase ≠ .ended := by
    rw [hPhase]
    nofun
  have hBegun : t.iterated = i := by
    have hHead := hAccount.begun
    rw [hPhase] at hHead
    exact hHead
  have hBounded := hAccount.bounded
  refine
    account_other hAccount hRunning rfl rfl rfl trivial ?_ ?_ ?_
      nofun
  · intro o hMem
    exact List.mem_append_left _ hMem
  · intro _
    exact (List.append_nil t.items).symm
  · intro n hEq
    cases hEq
    exact ⟨rfl, rfl, by omega⟩

/- Every step keeps the account of what was visited. -/
theorem account_step
    (t : ArrayCursor)
    (steps : List (IterationStep (KArrayCall KObjectRef)))
    (values :
      List (Except Fault (IterationValue KObjectRef)))
    (l : IterationStep (KArrayCall KObjectRef))
    (v : Except Fault (IterationValue KObjectRef))
    (t' : ArrayCursor)
    (hAccount : Account items t steps values)
    (_ : t.Roomy l)
    (hStep : machine.step t l = some (v, t')) :
    Account items t' (steps ++ [l]) (values ++ [v]) := by
  rcases Machine.only_step_eq_some.mp hStep with
    ⟨hAllows, hNext⟩
  cases hNext
  rcases t with ⟨now, phase, count, iterated⟩
  cases phase with
  | head i =>
      cases l with
      | visit =>
          simp only [next]
          split
          next hMore => exact account_visited hAccount rfl hMore
          next hLess => exact account_finished hAccount rfl hLess
      | _ => exact hAllows.elim
  | inside i =>
      have hBegun := hAccount.begun
      cases l with
      | visit => exact hAllows.elim
      | call c =>
          refine
            account_other hAccount nofun rfl rfl rfl hBegun ?_ ?_
              nofun nofun
          · intro o hMem
            exact KArrayCall.mem_arrayCall hMem
          · intro hKeeps
            exact KArrayCall.Keeps.arrayCall hKeeps
      | answer goesOn =>
          have hSame : now = now ++ addedBy (.answer goesOn) :=
            (List.append_nil now).symm
          have hMore :
              ∀ o ∈ now, o ∈ now ++ addedBy (.answer goesOn) :=
            fun o hMem => List.mem_append_left _ hMem
          cases goesOn with
          | true =>
              exact
                account_other hAccount nofun rfl rfl rfl hBegun
                  hMore (fun _ => hSame) nofun nofun
          | false =>
              refine
                account_other hAccount nofun rfl rfl rfl trivial
                  hMore (fun _ => hSame) nofun ?_
              intro n hEq
              cases hEq
              exact ⟨rfl, rfl⟩
  | ended => cases l <;> exact hAllows.elim

end ArrayCursor

end KDoth

------------------------------------------------------------
-- Runs
------------------------------------------------------------

namespace KDoth

namespace ArrayIteration

open IterationValue

/-
  An iteration over an array whose callback adds and removes
  what it likes, below 2^28 elements, makes no access outside
  the block or to a slot that was not written. It visits the
  indices below the first length in order, all of them if it
  finishes, and no object that was neither there nor added.
  Where nothing is removed it visits the first objects, and
  none that is added.
-/
theorem visits_first_length
    (array : KArrayHead)
    (s : Memory (Block KObjectRef))
    (items : List KObjectRef)
    (steps : List (IterationStep (KArrayCall KObjectRef)))
    (values :
      List (Except Fault (IterationValue KObjectRef)))
    (r : ArrayIteration × Memory (Block KObjectRef))
    (hStores : KArrayHead.Stores s.cell array items)
    (hRoomy :
      ArrayCursor.machine.Meets ArrayCursor.Roomy
        (ArrayCursor.start items) steps)
    (hRun :
      machine.run (start array, s) steps = some (values, r)) :
    ∃ t,
      ArrayCursor.machine.run (ArrayCursor.start items) steps =
          some (values, t) ∧
        KArrayHead.Stores r.2.cell r.1.array t.items ∧
        indices values = List.range (visits values).length ∧
        (visits values).length ≤ items.length ∧
        (∀ o, some o ∈ objects values →
          o ∈ items ++ ArrayCursor.added steps) ∧
        ((∀ l ∈ steps, ArrayCursor.Keeps l) →
          objects values =
            (items.take (visits values).length).map some) ∧
        (∀ n, .ok (.finished n) ∈ values →
          n = (visits values).length ∧ n = items.length) ∧
        ∀ n, .ok (.stopped n) ∈ values →
          n = (visits values).length := by
  have hStart :
      Follows (start array, s) (ArrayCursor.start items) :=
    ⟨hStores, rfl, hStores.length, rfl⟩
  rcases
      Machine.run_of_simulation_of_meets follows_step hStart
        hRoomy hRun with
    ⟨t, hCursor, hEnds⟩
  have hAccount :=
    Machine.invariant_of_run ArrayCursor.account_step
      (ArrayCursor.account_start items)
      hRoomy hCursor
  rw [List.nil_append, List.nil_append] at hAccount
  refine
    ⟨t, hCursor, hEnds.stores, hAccount.indexed, ?_,
      hAccount.known, ?_, ?_, ?_⟩
  · rw [← hAccount.iterated, ← hAccount.count]
    exact hAccount.bounded
  · intro hKeeps
    exact (hAccount.kept hKeeps).2
  · intro n hMem
    exact (hAccount.finished n hMem).2
  · intro n hMem
    exact (hAccount.stopped n hMem).2

/-
  During the first visit an object is added and the first is
  removed, so the second object is passed over.
-/
theorem visits_first_length_skipping :
    ∃ r,
      machine.run
          (start
            { address := 0
              length := 2
              items :=
                { address := 1
                  size := 16
                  buffer := some 100 } },
            { process := Process.initial
              cell := fun a =>
                if a = 100 then
                  some
                    (((Block.fresh 16).write 0 ⟨1⟩).write 1 ⟨2⟩)
                else none })
          [.visit,
            .call (.addObject (some ⟨3⟩) (some 200)),
            .call (.removeObjectAtIndex 0),
            .answer true,
            .visit,
            .answer true,
            .visit] =
          some
            ([.ok (.visited (some ⟨1⟩) 0),
              .ok (.result (.flag true)),
              .ok (.result (.flag true)),
              .ok .goesOn,
              .ok (.visited (some ⟨3⟩) 1),
              .ok .goesOn,
              .ok (.finished 2)], r) ∧
        KArrayHead.Stores r.2.cell r.1.array
          [⟨2⟩, ⟨3⟩] := by
  have hValues :
      (machine.run
          (start
            { address := 0
              length := 2
              items :=
                { address := 1
                  size := 16
                  buffer := some 100 } },
            { process := Process.initial
              cell := fun a =>
                if a = 100 then
                  some
                    (((Block.fresh 16).write 0 ⟨1⟩).write 1 ⟨2⟩)
                else none })
          [.visit,
            .call (.addObject (some ⟨3⟩) (some 200)),
            .call (.removeObjectAtIndex 0),
            .answer true,
            .visit,
            .answer true,
            .visit]).map Prod.fst =
        some
          [.ok (.visited (some ⟨1⟩) 0),
            .ok (.result (.flag true)),
            .ok (.result (.flag true)),
            .ok .goesOn,
            .ok (.visited (some ⟨3⟩) 1),
            .ok .goesOn,
            .ok (.finished 2)] :=
    rfl
  rcases Option.map_eq_some_iff.mp hValues with
    ⟨⟨values, r⟩, hRun, hSame⟩
  simp only at hSame
  subst hSame
  refine ⟨r, hRun, ?_⟩
  have hStores :
      KArrayHead.Stores
        (fun a =>
          if a = 100 then
            some (((Block.fresh 16).write 0 ⟨1⟩).write 1 ⟨2⟩)
          else none)
        { address := 0
          length := 2
          items :=
            { address := 1
              size := 16
              buffer := some 100 } }
        ([⟨1⟩, ⟨2⟩] : List KObjectRef) := by
    refine ⟨rfl, _, ⟨rfl, rfl⟩, ?_⟩
    intro i x hItem
    match i with
    | 0 => exact ⟨by decide, hItem⟩
    | 1 => exact ⟨by decide, hItem⟩
    | i + 2 => cases hItem
  rcases
      visits_first_length _ _ _ _ _ _ hStores (by decide) hRun
    with ⟨t, hCursor, hEnds, _⟩
  have hItems : t.items = [⟨2⟩, ⟨3⟩] := by
    have hEnd := congrArg (Option.map Prod.snd) hCursor
    exact
      (congrArg ArrayCursor.items (Option.some.inj hEnd)).symm
  rw [hItems] at hEnds
  exact hEnds

end ArrayIteration

end KDoth
