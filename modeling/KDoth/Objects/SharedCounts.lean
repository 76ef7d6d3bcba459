import KDoth.Foundations.RefGraph
import KDoth.Foundations.Totals
import KDoth.Objects.SharedObjects

/-
  What the reference counts of shared objects add up to.
  Every reference belongs to a thread or to an object. A step
  of a thread changes what that thread has and the count of
  one object, whatever the other threads are doing.

  Key definitions include:
    * `ObjectThread.owns`
    * `SharedObjects.Counted`
    * `SharedObjects.Kept`

  Key theorems include:
    * `CountBranch.decrement_eq`
    * `SharedObjects.Kept.setThread`
    * `SharedObjects.Kept.retain`
    * `SharedObjects.Kept.release`
    * `SharedObjects.Kept.objectNew`
-/

------------------------------------------------------------
-- Counting
------------------------------------------------------------

namespace KDoth

namespace CountBranch

/- Both branches call the deinitializer for the same words. -/
theorem decrement_eq
    (b : CountBranch)
    (word : UInt32) :
    b.decrement word = (word - 1, word == 1) := by
  cases b with
  | atomics => rfl
  | interlocked =>
      have hSame : (word - 1 == 0) = (word == 1) := by
        rw [Bool.eq_iff_iff, beq_iff_eq, beq_iff_eq]
        constructor
        · intro hZero
          rw [← UInt32.sub_add_cancel word 1, hZero]
          rfl
        · intro hOne
          rw [hOne]
          rfl
      rw [decrement, hSame]

end CountBranch

/- One more of an object at the end. -/
theorem count_append_singleton
    {l : List KObjectRef}
    {o x : KObjectRef} :
    (l ++ [o]).count x = l.count x + if x = o then 1 else 0 := by
  rw [List.count_append, List.count_singleton]
  by_cases hSame : x = o
  · simp [hSame]
  · simp [hSame, Ne.symm hSame]

namespace SharedFrame

/- The frame is to call the deinitializer of the object. -/
def uncalled (o : KObjectRef) (f : SharedFrame) : Bool :=
  decide (f.ending = .free o false)

/- The frame has called the deinitializer of the object. -/
def called (o : KObjectRef) (f : SharedFrame) : Bool :=
  decide (f.ending = .free o true)

variable {o x : KObjectRef} {left : List KObjectRef}

/- The call that frees an object is the only one of its kind. -/
theorem toNat_uncalled_free :
    (uncalled x
        { left := left, ending := .free o false }).toNat =
      if x = o then 1 else 0 := by
  by_cases hSame : x = o
  · simp [uncalled, hSame]
  · simp [uncalled, hSame, Ne.symm hSame]

theorem toNat_uncalled_called :
    (uncalled x
        { left := left, ending := .free o true }).toNat =
      0 := by
  simp [uncalled]

theorem toNat_called_free :
    (called x
        { left := left, ending := .free o false }).toNat =
      0 := by
  simp [called]

theorem toNat_called_called :
    (called x
        { left := left, ending := .free o true }).toNat =
      if x = o then 1 else 0 := by
  by_cases hSame : x = o
  · simp [called, hSame]
  · simp [called, hSame, Ne.symm hSame]

end SharedFrame

namespace ObjectThread

/- What the calls under way have still to release. -/
def pending (a : ObjectThread) : List KObjectRef :=
  a.frames.flatMap SharedFrame.left

/- The references of a thread to an object. -/
def owns (o : KObjectRef) (a : ObjectThread) : Nat :=
  a.held o + a.pooled.count o + a.pending.count o

def uncalled (o : KObjectRef) (a : ObjectThread) : Nat :=
  a.frames.countP (SharedFrame.uncalled o)

def called (o : KObjectRef) (a : ObjectThread) : Nat :=
  a.frames.countP (SharedFrame.called o)

end ObjectThread

namespace SharedObjects

variable {Thread : Type}

/- One for an object whose count is not zero. -/
def alive (s : SharedObjects Thread) (o : KObjectRef) : Nat :=
  match s.objects o with
  | none => 0
  | some object => if object.refCount = 0 then 0 else 1

/- One for an object whose count is zero. -/
def dying (s : SharedObjects Thread) (o : KObjectRef) : Nat :=
  match s.objects o with
  | none => 0
  | some object => if object.refCount = 0 then 1 else 0

/- One for an object that was made. -/
def made (s : SharedObjects Thread) (o : KObjectRef) : Nat :=
  if o.address < s.nextAddress then 1 else 0

variable [Fintype Thread]

/- The references of all threads to an object. -/
def owned (s : SharedObjects Thread) (o : KObjectRef) : Nat :=
  total (ObjectThread.owns o) s.threads

def uncalled (s : SharedObjects Thread) (o : KObjectRef) : Nat :=
  total (ObjectThread.uncalled o) s.threads

def called (s : SharedObjects Thread) (o : KObjectRef) : Nat :=
  total (ObjectThread.called o) s.threads

/-
  The counts are balanced on the graph of the objects that
  are alive. An object holds only older ones.
-/
structure Counted
    (s : SharedObjects Thread)
    (g : RefGraph KObjectRef)
    (pending : List KObjectRef) : Prop where
  balanced : g.Balanced s.count s.owned pending
  nodes : ∀ o, o ∈ g.nodes ↔ s.alive o = 1
  out :
    ∀ o object,
      s.objects o = some object → g.out o = object.fields
  older :
    ∀ o object,
      s.objects o = some object →
        ∀ x ∈ object.fields, x.address < o.address

/-
  Besides, each object that is not alive any more is in the
  hands of one call until it is freed, and no object was
  accessed too late.
-/
structure Kept
    (s : SharedObjects Thread)
    (g : RefGraph KObjectRef)
    (pending : List KObjectRef) : Prop
    extends Counted s g pending where
  calls : ∀ o, s.uncalled o + s.called o = s.dying o
  deInits :
    ∀ o,
      s.deInits.count o + s.uncalled o + s.alive o = s.made o
  frees :
    ∀ o, s.frees.count o + s.alive o + s.dying o = s.made o
  stale : s.stale = false

end SharedObjects

end KDoth

------------------------------------------------------------
-- Threads
------------------------------------------------------------

namespace KDoth

namespace SharedObjects

variable {Thread : Type}
variable {s : SharedObjects Thread} {o : KObjectRef}
variable {object : SharedObject}

/- A present object is alive or about to be freed. -/
theorem alive_add_dying
    (hObject : s.objects o = some object) :
    s.alive o + s.dying o = 1 := by
  unfold alive dying
  rw [hObject]
  by_cases hZero : object.refCount = 0
  · simp [hZero]
  · simp [hZero]

theorem made_le_one
    (s : SharedObjects Thread)
    (o : KObjectRef) :
    s.made o ≤ 1 := by
  unfold made
  split <;> omega

/- What is alive or about to be freed is present. -/
theorem exists_of_present
    (hPresent : 0 < s.alive o + s.dying o) :
    ∃ object, s.objects o = some object := by
  cases hObject : s.objects o with
  | none =>
      simp [alive, dying, hObject] at hPresent
  | some object => exact ⟨object, rfl⟩

theorem access_of_present
    (hPresent : 0 < s.alive o + s.dying o) :
    s.access o = s := by
  rcases exists_of_present hPresent with ⟨object, hObject⟩
  simp [access, hObject]

namespace Counted

variable [Fintype Thread]
variable {g : RefGraph KObjectRef}
variable {pending pending' : List KObjectRef}

theorem alive_of_node
    (hCounted : s.Counted g pending)
    (hNode : o ∈ g.nodes) :
    s.alive o = 1 :=
  (hCounted.nodes o).mp hNode

/- A reference of a thread is to an object that is alive. -/
theorem alive_of_owned
    (hCounted : s.Counted g pending)
    {t : Thread}
    (hOwns : 0 < (s.threads t).owns o) :
    s.alive o = 1 := by
  apply hCounted.alive_of_node
  apply hCounted.balanced.mem_of_rooted
  have hLe : (s.threads t).owns o ≤ s.owned o :=
    le_total (ObjectThread.owns o) s.threads t
  exact .root (by omega)

/- So is a reference in a field of such an object. -/
theorem alive_of_field
    (hCounted : s.Counted g pending)
    {x : KObjectRef}
    (hAlive : s.alive o = 1)
    (hObject : s.objects o = some object)
    (hField : x ∈ object.fields) :
    s.alive x = 1 := by
  apply hCounted.alive_of_node
  by_contra hNot
  have hNode := (hCounted.nodes o).mpr hAlive
  rw [← hCounted.out o object hObject] at hField
  have hNone := hCounted.balanced.closed x hNot
  have hDegree := RefGraph.inDegree_pos hNode hField
  omega

variable [DecidableEq Thread]

/- References move between a thread and the pending ones. -/
theorem setThread
    {t : Thread}
    {a : ObjectThread}
    (hCounted : s.Counted g pending)
    (hOwns :
      ∀ o,
        a.owns o + pending'.count o =
          (s.threads t).owns o + pending.count o) :
    (s.setThread t a).Counted g pending' := by
  constructor
  · apply hCounted.balanced.shift
    intro o
    have hTotal :=
      total_update (ObjectThread.owns o) s.threads t a
    have hMoved := hOwns o
    change total _ (Function.update s.threads t a) + _ =
      total _ s.threads + _
    omega
  · exact hCounted.nodes
  · exact hCounted.out
  · exact hCounted.older

end Counted

namespace Kept

variable [Fintype Thread] [DecidableEq Thread]
variable {g : RefGraph KObjectRef}
variable {pending pending' : List KObjectRef}

/- The calls of deinitializers stay the same. -/
theorem setThread
    {t : Thread}
    {a : ObjectThread}
    (hKept : s.Kept g pending)
    (hOwns :
      ∀ o,
        a.owns o + pending'.count o =
          (s.threads t).owns o + pending.count o)
    (hUncalled : ∀ o, a.uncalled o = (s.threads t).uncalled o)
    (hCalled : ∀ o, a.called o = (s.threads t).called o) :
    (s.setThread t a).Kept g pending' := by
  have hUncalledAll :
      ∀ o, (s.setThread t a).uncalled o = s.uncalled o :=
    fun o => total_update_of_eq (hUncalled o)
  have hCalledAll :
      ∀ o, (s.setThread t a).called o = s.called o :=
    fun o => total_update_of_eq (hCalled o)
  refine ⟨hKept.toCounted.setThread hOwns, ?_, ?_, ?_, ?_⟩
  · intro o
    rw [hUncalledAll, hCalledAll]
    exact hKept.calls o
  · intro o
    rw [hUncalledAll]
    exact hKept.deInits o
  · exact hKept.frees
  · exact hKept.stale

/- The code of a thread takes a pending reference. -/
theorem gain
    {t : Thread}
    (hKept : s.Kept g (o :: pending)) :
    (s.gain t o).Kept g pending := by
  apply hKept.setThread
  · intro x
    simp only [ObjectThread.owns, ObjectThread.pooled,
      ObjectThread.clearing,
      ObjectThread.pending, List.count_cons, List.count_nil]
    omega
  · intro x
    rfl
  · intro x
    rfl

/- The code of a thread makes references pending. -/
theorem lose
    {t : Thread}
    {l : List KObjectRef}
    (hKept : s.Kept g pending)
    (hHeld : ∀ x ∈ l, l.count x ≤ (s.threads t).held x) :
    (s.lose t l).Kept g (l ++ pending) := by
  apply hKept.setThread
  · intro x
    have hEnough : l.count x ≤ (s.threads t).held x := by
      by_cases hMem : x ∈ l
      · exact hHeld x hMem
      · rw [List.count_eq_zero_of_not_mem hMem]
        exact Nat.zero_le _
    simp only [ObjectThread.owns, ObjectThread.pooled,
      ObjectThread.clearing,
      ObjectThread.pending, List.count_append]
    omega
  · intro x
    rfl
  · intro x
    rfl

/- A held reference becomes pending. -/
theorem loseOne
    {t : Thread}
    (hKept : s.Kept g pending)
    (hHeld : 0 < (s.threads t).held o) :
    (s.lose t [o]).Kept g (o :: pending) := by
  apply hKept.lose
  intro x hx
  rw [List.mem_singleton.mp hx, List.count_singleton_self]
  exact hHeld

end Kept

end SharedObjects

end KDoth

------------------------------------------------------------
-- Objects In Memory
------------------------------------------------------------

namespace KDoth

namespace SharedObjects

variable {Thread : Type}
variable {s : SharedObjects Thread} {o x : KObjectRef}
variable {object object' : SharedObject}

theorem count_put_of_ne
    {block : Option SharedObject}
    (hNe : x ≠ o) :
    (s.put o block).count x = s.count x := by
  simp [count, put, hNe]

theorem count_put_self :
    (s.put o (some object)).count o =
      object.refCount.toNat := by
  simp [count, put]

theorem alive_put_of_ne
    {block : Option SharedObject}
    (hNe : x ≠ o) :
    (s.put o block).alive x = s.alive x := by
  simp [alive, put, hNe]

theorem dying_put_of_ne
    {block : Option SharedObject}
    (hNe : x ≠ o) :
    (s.put o block).dying x = s.dying x := by
  simp [dying, put, hNe]

theorem alive_put_self
    (hCount : object.refCount ≠ 0) :
    (s.put o (some object)).alive o = 1 := by
  simp [alive, put, hCount]

theorem dying_put_self
    (hCount : object.refCount ≠ 0) :
    (s.put o (some object)).dying o = 0 := by
  simp [dying, put, hCount]

theorem alive_put_zero
    (hCount : object.refCount = 0) :
    (s.put o (some object)).alive o = 0 := by
  simp [alive, put, hCount]

theorem dying_put_zero
    (hCount : object.refCount = 0) :
    (s.put o (some object)).dying o = 1 := by
  simp [dying, put, hCount]

theorem retain_eq
    {b : CountBranch}
    (hObject : s.objects o = some object) :
    s.retain b o =
      s.put o
        (some
          { object with refCount := object.refCount + 1 }) := by
  simp [retain, hObject, CountBranch.increment]

section

variable [DecidableEq Thread] {t : Thread} {b : CountBranch}

/- The release of the last reference. -/
theorem release_of_one
    (hObject : s.objects o = some object)
    (hOne : object.refCount = 1) :
    s.release b t o =
      (s.put o (some { object with refCount := 0 })).push t
        { left := object.fields
          ending := .free o false } := by
  simp [release, hObject, CountBranch.decrement_eq, hOne]

/- The release of another reference. -/
theorem release_of_ne
    (hObject : s.objects o = some object)
    (hMore : object.refCount ≠ 1) :
    s.release b t o =
      s.put o
        (some
          { object with refCount := object.refCount - 1 }) := by
  simp [release, hObject, CountBranch.decrement_eq, hMore]

end

/- The word of an object that is alive is not zero. -/
theorem refCount_ne_zero
    (hAlive : s.alive o = 1)
    (hObject : s.objects o = some object) :
    object.refCount ≠ 0 := by
  intro hZero
  simp [alive, hObject, hZero] at hAlive

theorem count_put :
    (s.put o (some object)).count =
      Function.update s.count o object.refCount.toNat := by
  funext x
  by_cases hSame : x = o
  · rw [hSame, count_put_self, Function.update_self]
  · rw [count_put_of_ne hSame, Function.update_of_ne hSame]

/- Writing the word of an object keeps what is in its fields. -/
theorem out_put
    {out : KObjectRef → List KObjectRef}
    (hOut :
      ∀ o object,
        s.objects o = some object → out o = object.fields)
    (hObject : s.objects o = some object)
    (hFields : object'.fields = object.fields)
    (x : KObjectRef)
    (y : SharedObject)
    (hy : (s.put o (some object')).objects x = some y) :
    out x = y.fields := by
  by_cases hSame : x = o
  · rw [hSame] at hy ⊢
    simp only [put, Function.update_self, Option.some.injEq]
      at hy
    rw [← hy, hFields]
    exact hOut o object hObject
  · simp only [put, Function.update_of_ne hSame] at hy
    exact hOut x y hy

theorem older_put
    (hOlder :
      ∀ o object,
        s.objects o = some object →
          ∀ x ∈ object.fields, x.address < o.address)
    (hObject : s.objects o = some object)
    (hFields : object'.fields = object.fields)
    (x : KObjectRef)
    (y : SharedObject)
    (hy : (s.put o (some object')).objects x = some y) :
    ∀ z ∈ y.fields, z.address < x.address := by
  by_cases hSame : x = o
  · rw [hSame] at hy ⊢
    simp only [put, Function.update_self, Option.some.injEq]
      at hy
    rw [← hy, hFields]
    exact hOlder o object hObject
  · simp only [put, Function.update_of_ne hSame] at hy
    exact hOlder x y hy

namespace Kept

variable [Fintype Thread]
variable {g g' : RefGraph KObjectRef}
variable {pending pending' : List KObjectRef}

/-
  The word of an object that is alive is written and stays
  above zero.
-/
theorem rewrite
    (hKept : s.Kept g pending)
    (hAlive : s.alive o = 1)
    (hObject : s.objects o = some object)
    (hFields : object'.fields = object.fields)
    (hCount : object'.refCount ≠ 0)
    (hBalanced :
      g.Balanced
        (Function.update s.count o object'.refCount.toNat)
        s.owned pending') :
    (s.put o (some object')).Kept g pending' := by
  have hAliveAll :
      ∀ x, (s.put o (some object')).alive x = s.alive x := by
    intro x
    by_cases hSame : x = o
    · rw [hSame, alive_put_self hCount, hAlive]
    · exact alive_put_of_ne hSame
  have hDying : s.dying o = 0 := by
    have hOne := alive_add_dying hObject
    omega
  have hDyingAll :
      ∀ x, (s.put o (some object')).dying x = s.dying x := by
    intro x
    by_cases hSame : x = o
    · rw [hSame, dying_put_self hCount, hDying]
    · exact dying_put_of_ne hSame
  refine ⟨⟨?_, ?_, ?_, ?_⟩, ?_, ?_, ?_, ?_⟩
  · rw [count_put]
    exact hBalanced
  · intro x
    rw [hAliveAll]
    exact hKept.nodes x
  · exact out_put hKept.out hObject hFields
  · exact older_put hKept.older hObject hFields
  · intro x
    rw [hDyingAll]
    exact hKept.calls x
  · intro x
    rw [hAliveAll]
    exact hKept.deInits x
  · intro x
    rw [hAliveAll, hDyingAll]
    exact hKept.frees x
  · exact hKept.stale

/- A retain adds a reference, as long as there is room. -/
theorem retain
    {b : CountBranch}
    (hKept : s.Kept g pending)
    (hAlive : s.alive o = 1)
    (hRoom : s.count o + 1 < 2 ^ 32) :
    (s.retain b o).Kept g (o :: pending) := by
  rcases exists_of_present (s := s) (o := o) (by omega) with
    ⟨object, hObject⟩
  have hWord : s.count o = object.refCount.toNat := by
    simp [count, hObject]
  have hRaised :
      (object.refCount + 1).toNat = s.count o + 1 := by
    rw [UInt32.toNat_add, ← hWord]
    exact Nat.mod_eq_of_lt hRoom
  rw [retain_eq hObject]
  refine hKept.rewrite hAlive hObject (by rfl) ?_ ?_
  · intro hZero
    have hNat := congrArg UInt32.toNat hZero
    rw [hRaised] at hNat
    cases hNat
  · change g.Balanced
      (Function.update s.count o (object.refCount + 1).toNat) _ _
    rw [hRaised]
    exact hKept.balanced.retain ((hKept.nodes o).mpr hAlive)

end Kept

end SharedObjects

end KDoth

------------------------------------------------------------
-- Releases
------------------------------------------------------------

namespace KDoth

namespace ObjectThread

variable {a : ObjectThread} {o : KObjectRef}
variable {f : SharedFrame} {rest : List SharedFrame}

/- A frame that does not clear the pool adds what it has. -/
theorem owns_push
    (hClears : f.clears = false) :
    (a.setFrames (f :: a.frames)).owns o =
      a.owns o + f.left.count o := by
  simp only [owns, pooled, clearing, pending, setFrames,
    List.any_cons, hClears, Bool.false_or, List.flatMap_cons,
    List.count_append]
  omega

theorem uncalled_push :
    (a.setFrames (f :: rest)).uncalled o =
      (a.setFrames rest).uncalled o +
        (f.uncalled o).toNat := by
  simp only [uncalled, setFrames, List.countP_cons]
  cases f.uncalled o <;> rfl

theorem called_push :
    (a.setFrames (f :: rest)).called o =
      (a.setFrames rest).called o +
        (f.called o).toNat := by
  simp only [called, setFrames, List.countP_cons]
  cases f.called o <;> rfl

end ObjectThread

namespace SharedObjects

variable {Thread : Type} [Fintype Thread] [DecidableEq Thread]
variable {s : SharedObjects Thread} {o x : KObjectRef}
variable {t : Thread} {object : SharedObject}

/- What a thread that begins a call adds to all threads. -/
theorem uncalled_push
    {f : SharedFrame} :
    (s.push t f).uncalled x =
      s.uncalled x + (f.uncalled x).toNat := by
  have hTotal :=
    total_update (ObjectThread.uncalled x) s.threads t
      ((s.threads t).setFrames (f :: (s.threads t).frames))
  rw [ObjectThread.uncalled_push] at hTotal
  change total _ (Function.update s.threads t _) =
    total _ s.threads + _
  change _ = _ + ((s.threads t).uncalled x + _) at hTotal
  omega

theorem called_push
    {f : SharedFrame} :
    (s.push t f).called x =
      s.called x + (f.called x).toNat := by
  have hTotal :=
    total_update (ObjectThread.called x) s.threads t
      ((s.threads t).setFrames (f :: (s.threads t).frames))
  rw [ObjectThread.called_push] at hTotal
  change total _ (Function.update s.threads t _) =
    total _ s.threads + _
  change _ = _ + ((s.threads t).called x + _) at hTotal
  omega

namespace Kept

variable {g : RefGraph KObjectRef}
variable {pending : List KObjectRef}

/- A call with pending references to release begins. -/
theorem push
    {f : SharedFrame}
    (hKept : s.Kept g (f.left ++ pending))
    (hEnding : f.ending = .done) :
    (s.push t f).Kept g pending := by
  apply hKept.setThread
  · intro x
    rw [ObjectThread.owns_push (by simp [SharedFrame.clears, hEnding]),
      List.count_append]
    omega
  · intro x
    rw [ObjectThread.uncalled_push]
    simp only [SharedFrame.uncalled, hEnding, reduceCtorEq,
      decide_false]
    rfl
  · intro x
    rw [ObjectThread.called_push]
    simp only [SharedFrame.called, hEnding, reduceCtorEq,
      decide_false]
    rfl

omit [DecidableEq Thread] in
/- The last reference to an object is given up. -/
theorem expire
    (hKept : s.Kept g (o :: pending))
    (hObject : s.objects o = some object)
    (hOne : object.refCount = 1) :
    (s.put o (some { object with refCount := 0 })).Counted
      (g.erase o) (object.fields ++ pending) := by
  have hWord : s.count o = 1 := by
    simp [count, hObject, hOne]
  have hDead := hKept.balanced.die hWord
  rw [hKept.out o object hObject] at hDead
  constructor
  · apply hDead.congr
    intro x hx
    exact count_put_of_ne (Finset.ne_of_mem_erase hx)
  · intro x
    by_cases hSame : x = o
    · rw [hSame]
      apply iff_of_false
      · exact Finset.notMem_erase o g.nodes
      · rw [alive_put_zero rfl]
        exact Nat.zero_ne_one
    · rw [alive_put_of_ne hSame, ← hKept.nodes x]
      exact
        ⟨Finset.mem_of_mem_erase,
          fun hx => Finset.mem_erase.mpr ⟨hSame, hx⟩⟩
  · exact out_put hKept.out hObject rfl
  · exact older_put hKept.older hObject rfl

/- The rest of a last release is a call of the thread. -/
theorem lastRelease
    (hKept : s.Kept g (o :: pending))
    (hAlive : s.alive o = 1)
    (hObject : s.objects o = some object)
    (hOne : object.refCount = 1) :
    ((s.put o (some { object with refCount := 0 })).push t
        { left := object.fields
          ending := .free o false }).Kept
      (g.erase o) pending := by
  have hCounted := hKept.expire hObject hOne
  have hDying := alive_add_dying hObject
  have hAliveSelf :
      (s.put o (some { object with refCount := 0 })).alive o =
        0 := alive_put_zero rfl
  have hDyingSelf :
      (s.put o (some { object with refCount := 0 })).dying o =
        1 := dying_put_zero rfl
  have hUncalled :
      ∀ x,
        ((s.put o (some { object with refCount := 0 })).push t
            { left := object.fields
              ending := .free o false }).uncalled x =
          s.uncalled x + if x = o then 1 else 0 := by
    intro x
    rw [uncalled_push, SharedFrame.toNat_uncalled_free]
    rfl
  have hCalled :
      ∀ x,
        ((s.put o (some { object with refCount := 0 })).push t
            { left := object.fields
              ending := .free o false }).called x =
          s.called x := by
    intro x
    rw [called_push, SharedFrame.toNat_called_free]
    rfl
  refine ⟨hCounted.setThread ?_, ?_, ?_, ?_, hKept.stale⟩
  · intro x
    rw [ObjectThread.owns_push rfl, List.count_append]
    change _ + object.fields.count x + _ = _
    omega
  · intro x
    rw [hUncalled, hCalled]
    change _ = (s.put o _).dying x
    have hCalls := hKept.calls x
    by_cases hSame : x = o
    · rw [if_pos hSame]
      rw [hSame] at hCalls ⊢
      omega
    · rw [if_neg hSame, dying_put_of_ne hSame]
      exact hCalls
  · intro x
    rw [hUncalled]
    change s.deInits.count x + _ + (s.put o _).alive x =
      s.made x
    have hDeInits := hKept.deInits x
    by_cases hSame : x = o
    · rw [if_pos hSame]
      rw [hSame] at hDeInits ⊢
      omega
    · rw [if_neg hSame, alive_put_of_ne hSame]
      exact hDeInits
  · intro x
    change s.frees.count x + (s.put o _).alive x +
      (s.put o _).dying x = s.made x
    have hFrees := hKept.frees x
    by_cases hSame : x = o
    · rw [hSame] at hFrees ⊢
      omega
    · rw [alive_put_of_ne hSame, dying_put_of_ne hSame]
      exact hFrees

/- A release gives up a pending reference. -/
theorem release
    {b : CountBranch}
    (hKept : s.Kept g (o :: pending)) :
    ∃ g', (s.release b t o).Kept g' pending := by
  have hNode := hKept.balanced.mem_of_pending
  have hAlive := hKept.alive_of_node hNode
  rcases exists_of_present (s := s) (o := o) (by omega) with
    ⟨object, hObject⟩
  have hWord : s.count o = object.refCount.toNat := by
    simp [count, hObject]
  have hNotZero := refCount_ne_zero hAlive hObject
  by_cases hOne : object.refCount = 1
  · refine ⟨g.erase o, ?_⟩
    rw [release_of_one hObject hOne]
    exact hKept.lastRelease hAlive hObject hOne
  · refine ⟨g, ?_⟩
    have hLe : (1 : UInt32) ≤ object.refCount := by
      have hNe : object.refCount.toNat ≠ 0 := by
        intro hNat
        exact hNotZero (UInt32.toNat_inj.mp hNat)
      rw [UInt32.le_iff_toNat_le]
      change 1 ≤ object.refCount.toNat
      omega
    have hLowered :
        (object.refCount - 1).toNat = s.count o - 1 := by
      rw [UInt32.toNat_sub_of_le _ _ hLe, hWord]
      rfl
    have hMore : s.count o ≠ 1 := by
      intro hEq
      rw [hWord] at hEq
      exact hOne (UInt32.toNat_inj.mp hEq)
    rw [release_of_ne hObject hOne]
    refine hKept.rewrite hAlive hObject (by rfl) ?_ ?_
    · intro hZero
      have hNat := congrArg UInt32.toNat hZero
      rw [hLowered] at hNat
      have hPos := hKept.balanced.positive o hNode
      change _ = 0 at hNat
      omega
    · change g.Balanced
        (Function.update s.count o
          (object.refCount - 1).toNat) _ _
      rw [hLowered]
      exact hKept.balanced.drop hMore

end Kept

end SharedObjects

end KDoth

------------------------------------------------------------
-- New Objects
------------------------------------------------------------

namespace KDoth

namespace SharedObjects

variable {Thread : Type}
variable {s : SharedObjects Thread} {o x : KObjectRef}

/- The object that `KObjectNew` makes. -/
def created
    (s : SharedObjects Thread)
    (fields : List KObjectRef) : SharedObjects Thread :=
  { s.put ⟨s.nextAddress⟩
      (some { refCount := 1, fields := fields }) with
    nextAddress := s.nextAddress + 1 }

namespace Kept

variable [Fintype Thread]
variable {g : RefGraph KObjectRef}
variable {pending fields : List KObjectRef}

/- What is there was made. -/
theorem lt_of_present
    (hKept : s.Kept g pending)
    (hPresent : 0 < s.alive o + s.dying o) :
    o.address < s.nextAddress := by
  have hMade := hKept.frees o
  by_contra hNot
  rw [made, if_neg hNot] at hMade
  omega

theorem lt_of_alive
    (hKept : s.Kept g pending)
    (hAlive : s.alive o = 1) :
    o.address < s.nextAddress :=
  hKept.lt_of_present (by omega)

/- A new object has one reference and takes over others. -/
theorem create
    (hKept : s.Kept g (fields ++ pending)) :
    (s.created fields).Kept
      (g.insert ⟨s.nextAddress⟩ fields)
      (⟨s.nextAddress⟩ :: pending) := by
  have hNotMade : s.made ⟨s.nextAddress⟩ = 0 := by
    simp [made]
  have hDeInits := hKept.deInits ⟨s.nextAddress⟩
  have hFrees := hKept.frees ⟨s.nextAddress⟩
  have hNew : ⟨s.nextAddress⟩ ∉ g.nodes := by
    intro hNode
    have hAlive := hKept.alive_of_node hNode
    omega
  have hObjects :
      ∀ x y,
        (s.created fields).objects x = some y →
          (x = ⟨s.nextAddress⟩ ∧ y.fields = fields) ∨
            (x ≠ ⟨s.nextAddress⟩ ∧ s.objects x = some y) := by
    intro x y hy
    by_cases hSame : x = ⟨s.nextAddress⟩
    · left
      rw [hSame] at hy
      simp only [created, put, Function.update_self,
        Option.some.injEq] at hy
      exact ⟨hSame, by rw [← hy]⟩
    · right
      simp only [created, put, Function.update_of_ne hSame]
        at hy
      exact ⟨hSame, hy⟩
  have hMade :
      ∀ x,
        x ≠ ⟨s.nextAddress⟩ →
          (s.created fields).made x = s.made x := by
    intro x hNe
    have hAddress : x.address ≠ s.nextAddress := by
      intro hEq
      apply hNe
      cases x
      cases hEq
      rfl
    have hIff :
        x.address < s.nextAddress + 1 ↔
          x.address < s.nextAddress := by
      omega
    simp only [made, created, hIff]
  have hMadeSelf :
      (s.created fields).made ⟨s.nextAddress⟩ = 1 := by
    simp [made, created]
  have hOne : (1 : UInt32) ≠ 0 := by decide
  have hAliveSelf :
      (s.created fields).alive ⟨s.nextAddress⟩ = 1 :=
    alive_put_self hOne
  have hDyingSelf :
      (s.created fields).dying ⟨s.nextAddress⟩ = 0 :=
    dying_put_self hOne
  refine ⟨⟨?_, ?_, ?_, ?_⟩, ?_, ?_, ?_, hKept.stale⟩
  · apply (hKept.balanced.insert hNew).congr
    intro x hx
    by_cases hSame : x = ⟨s.nextAddress⟩
    · rw [hSame, Function.update_self]
      exact count_put_self
    · rw [Function.update_of_ne hSame]
      exact count_put_of_ne hSame
  · intro x
    by_cases hSame : x = ⟨s.nextAddress⟩
    · rw [hSame]
      exact
        iff_of_true (Finset.mem_insert_self _ _) hAliveSelf
    · have hOld : (s.created fields).alive x = s.alive x :=
        alive_put_of_ne hSame
      rw [hOld, ← hKept.nodes x]
      exact
        ⟨fun hx =>
          (Finset.mem_insert.mp hx).resolve_left hSame,
          Finset.mem_insert_of_mem⟩
  · intro x y hy
    rcases hObjects x y hy with ⟨hSame, hEq⟩ | ⟨hNe, hOld⟩
    · rw [hSame, hEq]
      exact Function.update_self _ _ _
    · rw [← hKept.out x y hOld]
      exact Function.update_of_ne hNe _ _
  · intro x y hy z hz
    rcases hObjects x y hy with ⟨hSame, hEq⟩ | ⟨hNe, hOld⟩
    · rw [hEq] at hz
      rw [hSame]
      apply hKept.lt_of_alive
      apply hKept.alive_of_node
      by_contra hNot
      have hNone := hKept.balanced.closed z hNot
      have hCount : 0 < (fields ++ pending).count z :=
        List.count_pos_iff.mpr (List.mem_append_left _ hz)
      omega
    · exact hKept.older x y hOld z hz
  · intro x
    by_cases hSame : x = ⟨s.nextAddress⟩
    · have hCalls := hKept.calls ⟨s.nextAddress⟩
      rw [hSame, hDyingSelf]
      change s.uncalled _ + s.called _ = 0
      omega
    · have hOld : (s.created fields).dying x = s.dying x :=
        dying_put_of_ne hSame
      rw [hOld]
      exact hKept.calls x
  · intro x
    change s.deInits.count x + s.uncalled x + _ = _
    by_cases hSame : x = ⟨s.nextAddress⟩
    · rw [hSame, hAliveSelf, hMadeSelf]
      omega
    · have hOld : (s.created fields).alive x = s.alive x :=
        alive_put_of_ne hSame
      rw [hOld, hMade x hSame]
      exact hKept.deInits x
  · intro x
    change s.frees.count x + _ + _ = _
    by_cases hSame : x = ⟨s.nextAddress⟩
    · rw [hSame, hAliveSelf, hDyingSelf, hMadeSelf]
      omega
    · have hOld : (s.created fields).alive x = s.alive x :=
        alive_put_of_ne hSame
      have hOldDying :
          (s.created fields).dying x = s.dying x :=
        dying_put_of_ne hSame
      rw [hOld, hOldDying, hMade x hSame]
      exact hKept.frees x

variable [DecidableEq Thread]

/- The creator of an object holds its first reference. -/
theorem objectNew
    {t : Thread}
    (hKept : s.Kept g pending)
    (hHeld :
      ∀ x ∈ fields, fields.count x ≤ (s.threads t).held x) :
    ∃ g', (s.objectNew t fields).Kept g' pending := by
  have hLost := hKept.lose hHeld
  have hCreated := hLost.create
  exact ⟨_, hCreated.gain (t := t)⟩

end Kept

end SharedObjects

end KDoth
