import KDoth.Objects.ReferenceLaw
import KDoth.Objects.SharedCalls

/-
  Objects that threads share are safe: no thread accesses an
  object that was freed, and an object is deinitialized once,
  when nothing refers to it any more.

  Key definitions include:
    * `SharedObjects.references`
    * `SharedObjects.Safe`

  Key theorems include:
    * `SharedObjects.Kept.refCount_eq`
    * `SharedObjects.safe_of_reachable`
-/

------------------------------------------------------------
-- Safety
------------------------------------------------------------

namespace KDoth

namespace SharedObjects

variable {Thread : Type} [Fintype Thread]

/- The references that threads and objects hold to an object. -/
def references
    (s : SharedObjects Thread)
    (o : KObjectRef) : Nat :=
  s.owned o +
    ∑ i ∈ Finset.range s.nextAddress,
      s.alive ⟨i⟩ * (s.fieldsOf ⟨i⟩).count o

/-
  No object was accessed too late. Each is deinitialized and
  freed at most once, in this order, and nothing refers to it
  any more by then. The count of an object is the number of
  references to it, and `KObjectGetRetainCount` returns this
  number, on Windows if it is less than 2^31.
-/
structure Safe
    (b : CountBranch)
    (s : SharedObjects Thread) : Prop where
  fresh : s.stale = false
  deInits : s.deInits.Nodup
  frees : s.frees.Nodup
  order : ∀ o ∈ s.frees, o ∈ s.deInits
  unreferenced : ∀ o ∈ s.deInits, s.references o = 0
  counts :
    ∀ o object,
      s.objects o = some object →
        object.refCount.toNat = s.references o
  retainCounts :
    ∀ o object,
      s.objects o = some object →
        (b = .interlocked → s.references o < 2 ^ 31) →
          (b.retainCount object.refCount).toNat =
            s.references o

variable {s : SharedObjects Thread} {o : KObjectRef}
variable {g : RefGraph KObjectRef}

namespace Counted

/- The references between objects are the edges of the graph. -/
theorem references_eq
    (hCounted : s.Counted g [])
    (hBounded : ∀ a ∈ g.nodes, a.address < s.nextAddress)
    (o : KObjectRef) :
    s.references o = s.owned o + g.inDegree o := by
  have hNone :
      ∀ a,
        a ∉ g.nodes →
          s.alive a * (s.fieldsOf a).count o = 0 := by
    intro a ha
    have hNot : s.alive a ≠ 1 := fun h =>
      ha ((hCounted.nodes a).mpr h)
    have hZero : s.alive a = 0 := by
      unfold alive at hNot ⊢
      split
      · rfl
      · split
        · rfl
        · rename_i hObject hWord
          rw [hObject] at hNot
          simp [hWord] at hNot
    rw [hZero, Nat.zero_mul]
  have hSame :
      ∀ a ∈ g.nodes,
        s.alive a * (s.fieldsOf a).count o =
          (g.out a).count o := by
    intro a ha
    have hAlive := hCounted.alive_of_node ha
    rcases exists_of_present (s := s) (o := a) (by omega) with
      ⟨object, hObject⟩
    rw [hAlive, Nat.one_mul, hCounted.out a object hObject]
    simp [fieldsOf, hObject]
  unfold references RefGraph.inDegree
  rw [ObjectGraph.sum_addresses hBounded hNone,
    Finset.sum_congr rfl hSame]

end Counted

end SharedObjects

namespace CountBranch

/- A word below the sign bit is widened to its value. -/
theorem retainCount_toNat
    {b : CountBranch}
    {word : UInt32}
    (hSmall : b = .interlocked → word.toNat < 2 ^ 31) :
    (b.retainCount word).toNat = word.toNat := by
  cases b with
  | atomics => exact UInt32.toNat_toUInt64 word
  | interlocked =>
      have hLow := hSmall rfl
      have hMsb : word.toBitVec.msb = false := by
        rw [BitVec.msb_eq_false_iff_two_mul_lt,
          UInt32.toNat_toBitVec]
        omega
      have hWide :
          (retainCount .interlocked word).toBitVec =
            word.toBitVec.signExtend 64 := rfl
      rw [← UInt64.toNat_toBitVec, hWide,
        BitVec.signExtend_eq_setWidth_of_msb_false hMsb,
        BitVec.toNat_setWidth, UInt32.toNat_toBitVec]
      omega

end CountBranch

namespace SharedObjects

variable {Thread : Type} [Fintype Thread]
variable {s : SharedObjects Thread} {o : KObjectRef}
variable {g : RefGraph KObjectRef}

namespace Kept

variable {b : CountBranch}

theorem bounded
    (hKept : s.Kept g []) :
    ∀ a ∈ g.nodes, a.address < s.nextAddress :=
  fun _ ha => hKept.lt_of_alive (hKept.alive_of_node ha)

/- Nothing refers to an object that is not alive. -/
theorem references_of_not_alive
    (hKept : s.Kept g [])
    (hNot : s.alive o = 0) :
    s.references o = 0 := by
  have hNode : o ∉ g.nodes := by
    intro hNode
    have hAlive := hKept.alive_of_node hNode
    omega
  rw [hKept.references_eq hKept.bounded]
  have hNone := hKept.balanced.closed o hNode
  omega

/- The word of an object is the number of its references. -/
theorem refCount_eq
    {object : SharedObject}
    (hKept : s.Kept g [])
    (hObject : s.objects o = some object) :
    object.refCount.toNat = s.references o := by
  have hWord : s.count o = object.refCount.toNat := by
    simp [count, hObject]
  by_cases hZero : object.refCount = 0
  · have hAlive : s.alive o = 0 := by
      simp [alive, hObject, hZero]
    rw [hKept.references_of_not_alive hAlive, hZero]
    rfl
  · have hAlive : s.alive o = 1 := by
      simp [alive, hObject, hZero]
    have hCount :=
      hKept.balanced.counts o ((hKept.nodes o).mpr hAlive)
    rw [← hWord, hKept.references_eq hKept.bounded, hCount]
    rfl

/- What is kept is safe. -/
theorem safe
    (hKept : s.Kept g []) :
    s.Safe b := by
  refine ⟨hKept.stale, ?_, ?_, ?_, ?_, ?_, ?_⟩
  · rw [List.nodup_iff_count_le_one]
    intro o
    have hDeInits := hKept.deInits o
    have hMade := made_le_one s o
    omega
  · rw [List.nodup_iff_count_le_one]
    intro o
    have hFrees := hKept.frees o
    have hMade := made_le_one s o
    omega
  · intro o hFreed
    have hCount := List.count_pos_iff.mpr hFreed
    have hDeInits := hKept.deInits o
    have hFrees := hKept.frees o
    have hCalls := hKept.calls o
    have hMade := made_le_one s o
    apply List.count_pos_iff.mp
    omega
  · intro o hCalled
    have hCount := List.count_pos_iff.mpr hCalled
    have hDeInits := hKept.deInits o
    have hMade := made_le_one s o
    exact hKept.references_of_not_alive (by omega)
  · intro o object hObject
    exact hKept.refCount_eq hObject
  · intro o object hObject hSmall
    rw [← hKept.refCount_eq hObject] at hSmall ⊢
    exact CountBranch.retainCount_toNat hSmall

end Kept

variable [DecidableEq Thread]

/-
  Whatever the threads do, in whatever order, objects are safe
  on both branches, as long as no count is full when it is to
  be raised.
-/
theorem safe_of_reachable
    (b : CountBranch)
    (s : SharedObjects Thread)
    (hReach : (sharedObjects b Thread).ReachableWhere Roomy s) :
    s.Safe b := by
  rcases kept_of_reachable hReach with ⟨g, hKept⟩
  exact hKept.safe

/-
  One thread makes an object and hands a reference to another
  one, which gives up the last. The deinitializer makes an
  object of its own and moves it into the pool.
-/
def handedOver : List (SharedStep Bool) :=
  [.objectNew false [] true, .objectRetain false ⟨0⟩,
    .give false true ⟨0⟩, .objectRelease false ⟨0⟩,
    .objectRelease true ⟨0⟩, .proceed true,
    .objectNew true [] true, .autoreleaseMove true ⟨1⟩ true,
    .proceed true, .proceed true, .proceed true,
    .autoreleasePoolPop true, .proceed true, .proceed true,
    .proceed true, .proceed true]

theorem safe_of_handed_over :
    ∃ s,
      (sharedObjects .interlocked Bool).exec initial
          handedOver = some s ∧
        s.frees = [⟨0⟩, ⟨1⟩] ∧ s.Safe .interlocked := by
  have hExec :
      (sharedObjects .interlocked Bool).exec initial
          handedOver = some _ :=
    rfl
  refine ⟨_, hExec, rfl, ?_⟩
  apply safe_of_reachable
  apply
    TransitionSystem.reachableWhere_of_exec (.init rfl) _ hExec
  decide

end SharedObjects

end KDoth
