import KDoth.Objects.PoolAdditions

/-
  A pop under deinitializers that add to the pool. The slots
  are read through the buffer that was fetched first, so the
  pop is right as long as no addition frees that block while
  there is a slot to read.

  Key definitions include:
    * `AutoreleasePop.turns`

  Key theorems include:
    * `AutoreleasePop.sound_step`
    * `AutoreleasePop.stale_step`
    * `AutoreleasePop.turns_proceed`
    * `AutoreleasePop.popsOnce_iff`
-/

------------------------------------------------------------
-- The Loop
------------------------------------------------------------

namespace KDoth

namespace AutoreleasePop

open Command BlockCall MemoryCall

variable {objects : List KObjectRef}
variable {s s' : AutoreleasePop} {i : Nat}

theorem holds_of_none
    (hPool : s.tPool = none) :
    s.Holds [] := by
  rw [Holds, hPool]

/- The loop starts on the block of the pool. -/
theorem sound_enter
    (hStarts : Starts objects s) :
    Sound objects s.enter := by
  have hHolds := hStarts.holds
  rw [Holds] at hHolds
  cases hPool : s.tPool with
  | none =>
      rw [hPool] at hHolds
      have hEnter : s.enter = { s with phase := .returned 0 } := by
        rw [enter, hPool]
      rw [hEnter]
      refine ⟨⟨0, rfl⟩, [], [], ?_, ?_, ?_⟩
      · show s.added.Perm []
        rw [hStarts.added]
      · show s.released.Perm (objects ++ [])
        rw [hStarts.released, hHolds, List.append_nil]
      · exact holds_of_none hPool
  | some array =>
      rw [hPool] at hHolds
      rcases hHolds with ⟨hLength, hStored⟩
      have hContent : objects ++ s.added = objects := by
        rw [hStarts.added, List.append_nil]
      have hEnter :
          s.enter =
            { s with
              phase := .walking 0
              items := array.items.buffer } := by
        rw [enter, hPool]
      rw [hEnter]
      refine ⟨hStarts.released, Nat.zero_le _, ?_, ?_, ?_⟩
      · show s.length = (objects ++ s.added).length
        rw [hContent, ← hLength]
        exact length_of_some hPool
      · exact fun a hSame => hStarts.used array a hPool hSame
      · rcases hStored with hNil | ⟨b, hBacked, hBlock⟩
        · have hEmpty : objects ++ s.added = [] :=
            hContent.trans hNil
          exact
            Or.inr
              ⟨(congrArg List.length hEmpty).symm, Or.inl hEmpty⟩
        · refine Or.inl ⟨array, hPool, rfl, ?_⟩
          show KArrayHead.Stores s.memory.cell array
            (objects ++ s.added)
          rw [hContent]
          exact ⟨hLength, b, hBacked, hBlock⟩

/- A slot is read from the block and released. -/
theorem releaseSlot_of_kept
    (hWalked : Walked objects s i)
    (hLt : i < s.length) :
    ∃ o m,
      releaseSlot s.items i s.memory = .ok o m ∧
        m.cell = s.memory.cell ∧
        (objects ++ s.added)[i]? = some o := by
  rw [hWalked.length] at hLt
  rcases hWalked.block with
    ⟨array, hPool, hItems, hStores⟩ | ⟨hEnd, _⟩
  · have hNonempty : objects ++ s.added ≠ [] := by
      intro hNil
      rw [hNil] at hLt
      cases hLt
    rcases hStores.block hNonempty with
      ⟨a, b, hBuffer, hLive, _, hHolds⟩
    have hGet := List.getElem?_eq_getElem hLt
    rcases hHolds i _ hGet with ⟨hInside, hWord⟩
    have hCall :
        wp (releaseSlot s.items i)
          (fun o m =>
            m.cell = s.memory.cell ∧
              (objects ++ s.added)[i]? = some o)
          (fun _ _ => False) s.memory := by
      unfold releaseSlot
      rw [hItems, hBuffer, wp_bind,
        wp_loadWord hLive hInside hWord, wp_bind, wp_lift]
      exact ⟨rfl, hGet⟩
    unfold wp at hCall
    cases hRun : releaseSlot s.items i s.memory with
    | ok o m =>
        rw [hRun] at hCall
        exact ⟨o, m, rfl, hCall⟩
    | error fault m =>
        rw [hRun] at hCall
        exact hCall.elim
  · omega

/- One more slot was released. -/
theorem Walked.next
    {o : KObjectRef}
    {m : Memory (Block KObjectRef)}
    (hWalked : Walked objects s i)
    (hLt : i < s.length)
    (hCell : m.cell = s.memory.cell)
    (hItem : (objects ++ s.added)[i]? = some o)
    (phase : PopPhase) :
    Walked objects
      { s with
        phase := phase
        memory := m
        released := s.released ++ [o] }
      (i + 1) where
  released := by
    show s.released ++ [o] = (objects ++ s.added).take (i + 1)
    rw [List.take_add_one, hItem, hWalked.released]
    rfl
  le := by
    show i + 1 ≤ (objects ++ s.added).length
    rw [← hWalked.length]
    exact hLt
  length := hWalked.length
  used := hWalked.used
  block := by
    rcases hWalked.block with
      ⟨array, hPool, hItems, hStores⟩ | ⟨hEnd, _⟩
    · refine Or.inl ⟨array, hPool, hItems, ?_⟩
      show KArrayHead.Stores m.cell array _
      rw [hCell]
      exact hStores
    · rw [hWalked.length, ← hEnd] at hLt
      exact absurd hLt (Nat.lt_irrefl i)

/- A turn of the loop, and its end. -/
theorem sound_walk
    (hWalked : Walked objects s i) :
    Sound objects (s.walk i) := by
  unfold walk
  by_cases hLt : i < s.length
  · rcases releaseSlot_of_kept hWalked hLt with
      ⟨o, m, hRun, hCell, hItem⟩
    rw [if_pos hLt, hRun]
    by_cases hLast : s.refCount o = 1
    · simp only [if_pos hLast]
      exact hWalked.next hLt hCell hItem _
    · simp only [if_neg hLast]
      exact hWalked.next hLt hCell hItem _
  · rw [if_neg hLt]
    have hAll : (objects ++ s.added).length ≤ i := by
      rw [← hWalked.length]
      exact Nat.le_of_not_lt hLt
    refine ⟨⟨s.length, rfl⟩, s.added, [], ?_, ?_, ?_⟩
    · show s.added.Perm (s.added ++ [])
      rw [List.append_nil]
    · show s.released.Perm (objects ++ s.added)
      rw [hWalked.released, List.take_of_length_le hAll]
    · rw [Holds]
      cases hPool : s.tPool with
      | none => rfl
      | some array => exact ⟨rfl, Or.inl rfl⟩

/- The pop going on keeps what harmless additions keep. -/
theorem sound_proceed
    (hSound : Sound objects s)
    (hStep : s.proceed = some s') :
    Sound objects s' := by
  unfold proceed at hStep
  unfold Sound at hSound
  cases hPhase : s.phase with
  | idle =>
      rw [hPhase] at hSound hStep
      cases hStep
      exact sound_enter hSound
  | walking i =>
      rw [hPhase] at hSound hStep
      cases hStep
      exact sound_walk hSound
  | releasing i running outer =>
      rw [hPhase] at hSound hStep
      cases outer with
      | nil =>
          cases hStep
          exact ⟨hSound.1, hSound.2, hSound.3, hSound.4, hSound.5⟩
      | cons o outer =>
          cases hStep
          exact ⟨hSound.1, hSound.2, hSound.3, hSound.4, hSound.5⟩
  | returned removed =>
      rw [hPhase] at hStep
      cases hStep
  | faulted fault =>
      rw [hPhase] at hStep
      cases hStep

/- The next slot is read from a freed block. -/
theorem stale_walk
    (hStale : s.StaleAt i) :
    Stale (s.walk i) := by
  rcases hStale with
    ⟨array, a, hPool, hItems, hNone, _, hLeft⟩
  have hLt : i < s.length := by
    rw [length_of_some hPool]
    exact hLeft
  have hCall :
      wp (releaseSlot s.items i) (fun _ _ => False)
        (fun fault _ => fault = .dangling) s.memory := by
    unfold releaseSlot
    rw [hItems, wp_bind, wp_loadWord_dangling hNone]
  unfold wp at hCall
  unfold walk
  rw [if_pos hLt]
  cases hRun : releaseSlot s.items i s.memory with
  | ok o m =>
      rw [hRun] at hCall
      exact hCall.elim
  | error fault m => trivial

theorem stale_proceed
    (hStale : Stale s)
    (hStep : s.proceed = some s') :
    Stale s' := by
  unfold proceed at hStep
  unfold Stale at hStale
  cases hPhase : s.phase with
  | idle =>
      rw [hPhase] at hStale
      exact hStale.elim
  | walking i =>
      rw [hPhase] at hStale hStep
      cases hStep
      exact stale_walk hStale
  | releasing i running outer =>
      rw [hPhase] at hStale hStep
      cases outer with
      | nil =>
          cases hStep
          exact hStale
      | cons o outer =>
          cases hStep
          exact hStale
  | returned removed =>
      rw [hPhase] at hStale
      exact hStale.elim
  | faulted fault =>
      rw [hPhase] at hStep
      cases hStep

end AutoreleasePop

end KDoth

------------------------------------------------------------
-- Deinitializers
------------------------------------------------------------

namespace KDoth

namespace AutoreleasePop

variable {objects : List KObjectRef}
variable {s s' : AutoreleasePop}

/- An action is one of a deinitializer that runs. -/
theorem act_eq_some
    {t : AutoreleasePop}
    (hStep : s.act t = some s') :
    (∃ i running outer,
      s.phase = .releasing i running outer) ∧ t = s' := by
  unfold act at hStep
  split at hStep
  next i running outer hPhase =>
    exact ⟨⟨i, running, outer, hPhase⟩, Option.some.inj hStep⟩
  next => cases hStep

/- A release by a deinitializer leaves the pool as it is. -/
theorem releaseObject_cases
    (s : AutoreleasePop)
    (object : Option KObjectRef) :
    s.releaseObject object = s ∨
      ∃ i running outer running' outer' references,
        s.phase = .releasing i running outer ∧
          s.releaseObject object =
            { s with
              clientReferences := references
              phase := .releasing i running' outer' } ∧
          outer'.length ≤ outer.length + 1 := by
  unfold releaseObject
  split
  next o i running outer hPhase =>
    right
    by_cases hLast : s.refCount o = 1
    · rw [if_pos hLast]
      exact
        ⟨i, running, outer, o, running :: outer, _, hPhase, rfl,
          Nat.le_refl _⟩
    · rw [if_neg hLast]
      exact
        ⟨i, running, outer, running, outer, _, hPhase, rfl,
          Nat.le_succ _⟩
  next => exact Or.inl rfl

theorem sound_releaseObject
    (object : Option KObjectRef)
    (hSound : Sound objects s) :
    Sound objects (s.releaseObject object) := by
  rcases releaseObject_cases s object with
    hSame | ⟨i, _, _, _, _, _, hPhase, hAfter, _⟩
  · rw [hSame]
    exact hSound
  · rw [hAfter]
    rw [Sound, hPhase] at hSound
    exact ⟨hSound.1, hSound.2, hSound.3, hSound.4, hSound.5⟩

theorem stale_releaseObject
    (object : Option KObjectRef)
    (hStale : Stale s) :
    Stale (s.releaseObject object) := by
  rcases releaseObject_cases s object with
    hSame | ⟨i, _, _, _, _, _, hPhase, hAfter, _⟩
  · rw [hSame]
    exact hStale
  · rw [hAfter]
    rw [Stale, hPhase] at hStale
    exact hStale

/- An addition of NULL changes nothing that is read. -/
theorem addObject_none
    (answer : ReallocAnswer) :
    s.addObject none answer =
      { s with nextAddress := s.nextAddress + 1 } :=
  rfl

/- A harmless addition, or one of NULL. -/
theorem sound_addObject
    {object : Option KObjectRef}
    {answer : ReallocAnswer}
    {i : Nat}
    {running : KObjectRef}
    {outer : List KObjectRef}
    (hPhase : s.phase = .releasing i running outer)
    (hSound : Sound objects s)
    (hHarmless : object ≠ none → s.Harmless answer) :
    Sound objects (s.addObject object answer) := by
  rw [Sound, hPhase] at hSound
  cases object with
  | none =>
      rw [addObject_none, Sound, hPhase]
      refine
        ⟨hSound.1, hSound.2, hSound.3, ?_, hSound.5⟩
      intro a hSame
      exact Nat.lt_succ_of_lt (hSound.used a hSame)
  | some o =>
      rcases
        walked_addObject (o := o) hSound (Nat.succ_pos i)
          (by rw [hPhase]; rfl) (hHarmless nofun) with
        ⟨hSame, hWalked⟩
      rw [Sound, hSame, hPhase]
      exact hWalked

theorem Ruined.stale
    {i : Nat}
    {running : KObjectRef}
    {outer : List KObjectRef}
    (hPhase : s.phase = .releasing i running outer)
    (hRuined : Ruined s (i + 1) s') :
    Stale s' := by
  rcases hRuined with ⟨fault, hFault⟩ | ⟨hSame, hStale⟩
  · rw [Stale, hFault]
    trivial
  · rw [Stale, hSame, hPhase]
    exact hStale

/- An addition that is not harmless. -/
theorem stale_of_not_harmless
    {o : KObjectRef}
    {answer : ReallocAnswer}
    {i : Nat}
    {running : KObjectRef}
    {outer : List KObjectRef}
    (hPhase : s.phase = .releasing i running outer)
    (hSound : Sound objects s)
    (hHarmful : ¬ s.Harmless answer) :
    Stale (s.addObject (some o) answer) := by
  rw [Sound, hPhase] at hSound
  apply Ruined.stale hPhase
  apply ruined_of_harmful hSound (Nat.succ_pos i) _ hHarmful
  rw [hPhase]
  rfl

/- Further additions make up for nothing. -/
theorem stale_addObject
    (object : Option KObjectRef)
    (answer : ReallocAnswer)
    {i : Nat}
    {running : KObjectRef}
    {outer : List KObjectRef}
    (hPhase : s.phase = .releasing i running outer)
    (hStale : Stale s) :
    Stale (s.addObject object answer) := by
  rw [Stale, hPhase] at hStale
  cases object with
  | none =>
      rcases hStale with
        ⟨array, a, hPool, hItems, hNone, hUsed, hLeft⟩
      rw [addObject_none, Stale, hPhase]
      exact
        ⟨array, a, hPool, hItems, hNone,
          Nat.lt_succ_of_lt hUsed, hLeft⟩
  | some o =>
      exact
        Ruined.stale hPhase (ruined_of_staleAt o answer hStale)

/- Steps that spare the block keep the pop sound. -/
theorem sound_step
    {l : PopStep}
    (hSound : Sound objects s)
    (hSpares : s.Spares l)
    (hStep : s.step l = some s') :
    Sound objects s' := by
  cases l with
  | proceed => exact sound_proceed hSound hStep
  | add object answer =>
      rcases act_eq_some hStep with
        ⟨⟨i, running, outer, hPhase⟩, rfl⟩
      apply sound_addObject hPhase hSound
      intro hObject
      cases object with
      | none => exact absurd rfl hObject
      | some o => exact hSpares
  | move object answer =>
      rcases act_eq_some hStep with
        ⟨⟨i, running, outer, hPhase⟩, rfl⟩
      apply sound_releaseObject
      apply sound_addObject hPhase hSound
      intro hObject
      cases object with
      | none => exact absurd rfl hObject
      | some o => exact hSpares
  | release object =>
      rcases act_eq_some hStep with ⟨_, rfl⟩
      exact sound_releaseObject object hSound

/- A step that does not spare it leaves the pop stale. -/
theorem stale_of_step
    {l : PopStep}
    (hSound : Sound objects s)
    (hHarmful : ¬ s.Spares l)
    (hStep : s.step l = some s') :
    Stale s' := by
  cases l with
  | proceed => exact absurd trivial hHarmful
  | add object answer =>
      rcases act_eq_some hStep with
        ⟨⟨i, running, outer, hPhase⟩, rfl⟩
      cases object with
      | none => exact absurd trivial hHarmful
      | some o =>
          exact stale_of_not_harmless hPhase hSound hHarmful
  | move object answer =>
      rcases act_eq_some hStep with
        ⟨⟨i, running, outer, hPhase⟩, rfl⟩
      cases object with
      | none => exact absurd trivial hHarmful
      | some o =>
          apply stale_releaseObject
          exact stale_of_not_harmless hPhase hSound hHarmful
  | release object => exact absurd trivial hHarmful

theorem stale_step
    {l : PopStep}
    (hStale : Stale s)
    (hStep : s.step l = some s') :
    Stale s' := by
  cases l with
  | proceed => exact stale_proceed hStale hStep
  | add object answer =>
      rcases act_eq_some hStep with
        ⟨⟨i, running, outer, hPhase⟩, rfl⟩
      exact stale_addObject object answer hPhase hStale
  | move object answer =>
      rcases act_eq_some hStep with
        ⟨⟨i, running, outer, hPhase⟩, rfl⟩
      apply stale_releaseObject
      exact stale_addObject object answer hPhase hStale
  | release object =>
      rcases act_eq_some hStep with ⟨_, rfl⟩
      exact stale_releaseObject object hStale

end AutoreleasePop

end KDoth

------------------------------------------------------------
-- Termination
------------------------------------------------------------

namespace KDoth

/- The steps left in a phase, for a pool of this length. -/
def PopPhase.turns (length : Nat) : PopPhase → Nat
| .idle => 2 * length + 2
| .walking i => 2 * (length - i) + 1
| .releasing i _ outer =>
    2 * (length - (i + 1)) + outer.length + 2
| .returned _ => 0
| .faulted _ => 0

/- One more slot takes two more steps at most. -/
theorem PopPhase.turns_le
    (phase : PopPhase)
    {length length' : Nat}
    (hLe : length' ≤ length + 1) :
    phase.turns length' ≤ phase.turns length + 2 := by
  cases phase with
  | idle =>
      rw [turns, turns]
      omega
  | walking i =>
      rw [turns, turns]
      omega
  | releasing i running outer =>
      rw [turns, turns]
      omega
  | returned removed => exact Nat.zero_le _
  | faulted fault => exact Nat.zero_le _

namespace AutoreleasePop

open Command MemoryCall

variable {s s' : AutoreleasePop}

/-
  How many steps of its own the pop has left: two for each
  slot, one for each deinitializer that runs, and the end.
-/
def turns (s : AutoreleasePop) : Nat :=
  s.phase.turns s.length

/- An addition makes the array longer by at most one. -/
theorem addObject_length
    (s : AutoreleasePop)
    (object : Option KObjectRef)
    (answer : ReallocAnswer) :
    (∃ fault,
      (s.addObject object answer).phase = .faulted fault) ∨
      ((s.addObject object answer).phase = s.phase ∧
        (s.addObject object answer).length ≤ s.length + 1) := by
  cases object with
  | none =>
      rw [addObject_none]
      exact Or.inr ⟨rfl, Nat.le_succ _⟩
  | some o =>
      cases hPool : s.tPool with
      | none =>
          have hAfter :
              s.addObject (some o) answer =
                { s with
                  tPool := none
                  nextAddress := s.nextAddress + 1 } := by
            rw [addObject, hPool]
            rfl
          rw [hAfter]
          exact Or.inr ⟨rfl, Nat.zero_le _⟩
      | some array =>
          rcases
            addObject_of_wp hPool
              (KArrayHead.wp_addObject_length array) with
            ⟨r, m, hLe, hAfter⟩ | ⟨fault, m, _, hAfter⟩
          · rw [hAfter, length_of_some hPool]
            exact Or.inr ⟨rfl, hLe⟩
          · rw [hAfter]
            exact Or.inl ⟨fault, rfl⟩

theorem turns_addObject
    (object : Option KObjectRef)
    (answer : ReallocAnswer) :
    (s.addObject object answer).turns ≤ s.turns + 2 := by
  rcases addObject_length s object answer with
    ⟨fault, hFault⟩ | ⟨hSame, hLe⟩
  · rw [turns, hFault]
    exact Nat.zero_le _
  · rw [turns, hSame]
    exact s.phase.turns_le hLe

theorem turns_releaseObject
    (object : Option KObjectRef) :
    (s.releaseObject object).turns ≤ s.turns + 1 := by
  rcases releaseObject_cases s object with
    hSame | ⟨i, _, outer, _, outer', _, hPhase, hAfter, hLe⟩
  · rw [hSame]
    exact Nat.le_succ _
  · rw [hAfter]
    rw [turns, turns, hPhase]
    show 2 * (s.length - (i + 1)) + outer'.length + 2 ≤
      2 * (s.length - (i + 1)) + outer.length + 2 + 1
    omega

/- A turn of the loop has one step less left. -/
theorem turns_walk
    (s : AutoreleasePop)
    (i : Nat) :
    (s.walk i).turns < 2 * (s.length - i) + 1 := by
  unfold walk
  by_cases hLt : i < s.length
  · rw [if_pos hLt]
    cases hRun : releaseSlot s.items i s.memory with
    | ok o m =>
        by_cases hLast : s.refCount o = 1
        · simp only [if_pos hLast]
          show 2 * (s.length - (i + 1)) + 0 + 2 < _
          omega
        · simp only [if_neg hLast]
          show 2 * (s.length - (i + 1)) + 1 < _
          omega
    | error fault m => exact Nat.succ_pos _
  · rw [if_neg hLt]
    exact Nat.succ_pos _

theorem turns_proceed
    (hStep : s.proceed = some s') :
    s'.turns < s.turns := by
  unfold proceed at hStep
  cases hPhase : s.phase with
  | idle =>
      rw [hPhase] at hStep
      cases hStep
      rw [turns, turns, hPhase]
      cases hPool : s.tPool with
      | none =>
          rw [enter, hPool]
          exact Nat.succ_pos _
      | some array =>
          have hEnter :
              s.enter =
                { s with
                  phase := .walking 0
                  items := array.items.buffer } := by
            rw [enter, hPool]
          rw [hEnter]
          show 2 * (s.length - 0) + 1 < 2 * s.length + 2
          omega
  | walking i =>
      rw [hPhase] at hStep
      cases hStep
      rw [turns.eq_def s, hPhase]
      exact turns_walk s i
  | releasing i running outer =>
      rw [hPhase] at hStep
      cases outer with
      | nil =>
          cases hStep
          rw [turns, turns, hPhase]
          show 2 * (s.length - (i + 1)) + 1 <
            2 * (s.length - (i + 1)) + 0 + 2
          omega
      | cons o outer =>
          cases hStep
          rw [turns, turns, hPhase]
          show 2 * (s.length - (i + 1)) + outer.length + 2 <
            2 * (s.length - (i + 1)) + (outer.length + 1) + 2
          omega
  | returned removed =>
      rw [hPhase] at hStep
      cases hStep
  | faulted fault =>
      rw [hPhase] at hStep
      cases hStep

/- A call by a deinitializer adds at most three steps. -/
theorem turns_step
    {l : PopStep}
    (hOther : l.isOwn = false)
    (hStep : s.step l = some s') :
    s'.turns ≤ s.turns + 3 := by
  cases l with
  | proceed => cases hOther
  | add object answer =>
      rcases act_eq_some hStep with ⟨_, rfl⟩
      exact Nat.le_succ_of_le (turns_addObject object answer)
  | move object answer =>
      rcases act_eq_some hStep with ⟨_, rfl⟩
      have hAdd := turns_addObject (s := s) object answer
      have hRelease :=
        turns_releaseObject (s := s.addObject object answer)
          object
      exact Nat.le_trans hRelease (Nat.succ_le_succ hAdd)
  | release object =>
      rcases act_eq_some hStep with ⟨_, rfl⟩
      exact
        Nat.le_trans (turns_releaseObject object)
          (Nat.add_le_add_left (by omega) _)

/- Until it is done, the pop can go on. -/
theorem proceed_of_not_done
    (hNot : ¬ s.Done) :
    ∃ s', s.proceed = some s' := by
  unfold Done at hNot
  unfold proceed
  cases hPhase : s.phase with
  | idle => exact ⟨_, rfl⟩
  | walking i => exact ⟨_, rfl⟩
  | releasing i running outer =>
      cases outer with
      | nil => exact ⟨_, rfl⟩
      | cons o outer => exact ⟨_, rfl⟩
  | returned removed =>
      rw [hPhase] at hNot
      exact absurd trivial hNot
  | faulted fault =>
      rw [hPhase] at hNot
      exact absurd trivial hNot

end AutoreleasePop

end KDoth

------------------------------------------------------------
-- Reentrant Deinitializers
------------------------------------------------------------

namespace KDoth

namespace AutoreleasePop

variable {objects : List KObjectRef}
variable {s₀ s : AutoreleasePop} {ls : List PopStep}

theorem Starts.turns
    (hStarts : Starts objects s₀) :
    s₀.turns = 2 * objects.length + 2 := by
  have hHolds := hStarts.holds
  rw [Holds] at hHolds
  rw [AutoreleasePop.turns, hStarts.phase]
  cases hPool : s₀.tPool with
  | none =>
      rw [hPool] at hHolds
      rw [length, hPool, hHolds]
      rfl
  | some array =>
      rw [hPool] at hHolds
      rw [length_of_some hPool, hHolds.1]
      rfl

/-
  The pop ends when the deinitializers end, and when it has,
  it popped every object once exactly if each addition left
  the block of the pool in place for the slots to be read.
-/
theorem popsOnce_iff
    (objects : List KObjectRef)
    (s₀ s : AutoreleasePop)
    (ls : List PopStep)
    (hInit : (system objects).Init s₀)
    (hExec : (system objects).exec s₀ ls = some s) :
    ls.countP PopStep.isOwn ≤
        2 * objects.length + 2 +
          3 * ls.countP (fun l => !l.isOwn) ∧
      (¬ s.Done →
        ∃ s', (system objects).step s .proceed = some s') ∧
      (s.Done →
        (PopsOnce objects s ↔
          (system objects).ExecMeets Spares s₀ ls)) := by
  refine ⟨?_, proceed_of_not_done, ?_⟩
  · have hCount :=
      TransitionSystem.countP_le_of_rank turns PopStep.isOwn 3
        (fun s l s' hOwn hStep => by
          cases l with
          | proceed => exact turns_proceed hStep
          | add object answer => cases hOwn
          | move object answer => cases hOwn
          | release object => cases hOwn)
        (fun s l s' hOther hStep => turns_step hOther hStep)
        hExec
    rw [Starts.turns hInit] at hCount
    omega
  · intro hDone
    have hSound : Sound objects s₀ := by
      rw [Sound, hInit.phase]
      exact hInit
    rcases
      TransitionSystem.execMeets_or (Sound objects) Stale
        (fun _ _ _ => sound_step) (fun _ _ _ => stale_of_step)
        (fun _ _ _ => stale_step) hSound hExec with
      ⟨hMeets, hEnd⟩ | ⟨hNot, hEnd⟩
    · have hPops : PopsOnce objects s := by
        unfold Done at hDone
        unfold Sound at hEnd
        cases hPhase : s.phase with
        | returned removed =>
            rw [hPhase] at hEnd
            exact hEnd
        | faulted fault =>
            rw [hPhase] at hEnd
            exact hEnd.elim
        | idle =>
            rw [hPhase] at hDone
            exact hDone.elim
        | walking i =>
            rw [hPhase] at hDone
            exact hDone.elim
        | releasing i running outer =>
            rw [hPhase] at hDone
            exact hDone.elim
      exact iff_of_true hPops hMeets
    · have hFails : ¬ PopsOnce objects s := by
        rintro ⟨⟨removed, hPhase⟩, _⟩
        rw [Stale, hPhase] at hEnd
        exact hEnd
      exact iff_of_false hFails hNot

/- A pool of one object, to which nothing else refers. -/
def onePool : AutoreleasePop where
  phase := .idle
  memory :=
    { process := Process.initial.addReferences ⟨1⟩ 1
      cell :=
        Function.update (fun _ => none) 0
          (some ((Block.fresh 8).write 0 ⟨1⟩)) }
  tPool :=
    some
      { address := 0
        length := 1
        items := { address := 1, size := 8, buffer := some 0 } }
  items := none
  clientReferences := fun o => if o = ⟨2⟩ then 1 else 0
  nextAddress := 1
  released := []
  added := []

theorem onePool_starts : Starts [⟨1⟩] onePool where
  phase := rfl
  released := rfl
  added := rfl
  holds := by
    refine
      ⟨rfl, Or.inr ⟨(Block.fresh 8).write 0 ⟨1⟩, ⟨rfl, rfl⟩, ?_⟩⟩
    intro i x hItem
    cases i with
    | zero =>
        cases hItem
        exact ⟨Nat.le_refl 8, rfl⟩
    | succ i => cases hItem
  fresh := by
    intro a hLe
    have hNe : a ≠ 0 := Nat.ne_of_gt hLe
    simp [onePool, hNe]
  used := by
    intro array a hPool hBuffer
    cases hPool
    cases hBuffer
    exact Nat.one_pos

/-
  The deinitializer of the object adds another one, which is
  released in turn when the block stays where it is.
-/
theorem popsOnce_inPlace :
    ∃ s,
      (system [⟨1⟩]).exec onePool
          [.proceed, .proceed, .add (some ⟨2⟩) .inPlace,
            .proceed, .proceed, .proceed] =
        some s ∧
        s.released = [⟨1⟩, ⟨2⟩] ∧
        PopsOnce [⟨1⟩] s := by
  refine ⟨_, rfl, rfl, ?_⟩
  refine
    ((popsOnce_iff [⟨1⟩] onePool _
      [.proceed, .proceed, .add (some ⟨2⟩) .inPlace,
        .proceed, .proceed, .proceed]
      onePool_starts rfl).2.2 trivial).mpr ?_
  decide

/- When it moves, the loop reads the block that was freed. -/
theorem popsOnce_fails :
    ∃ s,
      (system [⟨1⟩]).Init onePool ∧
        (system [⟨1⟩]).exec onePool
            [.proceed, .proceed, .add (some ⟨2⟩) .moved,
              .proceed, .proceed] =
          some s ∧
        s.phase = .faulted .dangling ∧
        ¬ PopsOnce [⟨1⟩] s := by
  refine ⟨_, onePool_starts, rfl, rfl, ?_⟩
  rintro ⟨⟨removed, hReturned⟩, _⟩
  cases hReturned

end AutoreleasePop

end KDoth
