import KDoth.Map.Representation
import KDoth.Map.Untouched

/-
  `KMapSetValue` under allocation failures: a call that
  returns false changed nothing, and one that returns true
  changed what a plain insertion or overwrite changes, also
  when its rehash was abandoned half way.

  Key definitions include:
    * `KMap.Private`
    * `KMap.Updates`

  Key theorems include:
    * `KMap.Private.setValue`
    * `KMap.setValue_atomic`
-/

------------------------------------------------------------
-- What A Call Changes
------------------------------------------------------------

namespace KDoth

namespace KMap

/-
  The objects inside the map are different ones, and the map
  holds the only reference to each. The map itself may have
  any number of references.
-/
structure Private
    (map : KMap)
    (p : Process) : Prop where
  nodup : (map.address :: map.parts).Nodup
  live : map.address < p.nextAddress
  unique :
    ∀ a ∈ map.parts, a < p.nextAddress ∧ p.refCount a = 1

/-
  How the pairs, the object count and the references to the
  client's objects change. An insertion takes a reference to
  the key and one to the value, and an overwrite takes one to
  the value and gives up one to the value before.
-/
inductive Updates
    (map : KMap)
    (key value : KObjectRef)
    (map' : KMap)
    (before after : Ledger) : Prop
| inserted
    (hAbsent : map.Absent key)
    (hContents :
      map'.contents.Perm ((key, value) :: map.contents))
    (hCount : map'.objectCount = map.objectCount + 1)
    (hReferences :
      after = before + Ledger.one key + Ledger.one value)
| overwritten
    (old : KObjectRef × KObjectRef)
    (rest : List (KObjectRef × KObjectRef))
    (hPresent : map.Present key old rest)
    (hContents : map'.contents.Perm ((old.1, value) :: rest))
    (hCount : map'.objectCount = map.objectCount)
    (hReferences :
      after = before - Ledger.one old.2 + Ledger.one value)

end KMap

end KDoth

------------------------------------------------------------
-- References Of The Pairs
------------------------------------------------------------

namespace KDoth

namespace KMap

/- The references that pairs hold. -/
def pairsHold
    (pairs : List (KObjectRef × KObjectRef)) : Ledger :=
  (pairs.map fun x => Ledger.one x.1 + Ledger.one x.2).sum

@[simp] theorem pairsHold_cons
    (x : KObjectRef × KObjectRef)
    (pairs : List (KObjectRef × KObjectRef)) :
    pairsHold (x :: pairs) =
      Ledger.one x.1 + Ledger.one x.2 + pairsHold pairs := by
  simp [pairsHold]

theorem pairsHold_perm
    {pairs pairs' : List (KObjectRef × KObjectRef)}
    (hPerm : pairs.Perm pairs') :
    pairsHold pairs = pairsHold pairs' :=
  (hPerm.map _).sum_eq

/- A map holds what its pairs hold. -/
theorem holds_eq_contents (map : KMap) :
    Owned.holds map = pairsHold map.contents := by
  rw [holds_eq_entries]
  unfold pairsHold contents
  rw [List.map_map]
  rfl

/- The references follow the pairs. -/
theorem Stored.updates
    {map mid map' : KMap}
    {key value : KObjectRef}
    {before after : Ledger}
    (hStored : Stored map key value mid)
    (hAfter : Rehashed mid map')
    (hReferences :
      after = before - Owned.holds map + Owned.holds map') :
    Updates map key value map' before after := by
  rw [holds_eq_contents, holds_eq_contents] at hReferences
  cases hStored with
  | found old rest hOld hNew hCount =>
      have hContents := hAfter.contents.trans hNew
      apply Updates.overwritten old rest hOld hContents
      · rw [hAfter.objectCount, hCount]
      · rw [hReferences, pairsHold_perm hOld.contents,
          pairsHold_perm hContents, pairsHold_cons,
          pairsHold_cons]
        abel
  | fresh hFresh hNew hCount =>
      have hContents := hAfter.contents.trans hNew
      apply Updates.inserted hFresh hContents
      · rw [hAfter.objectCount, hCount]
      · rw [hReferences, pairsHold_perm hContents,
          pairsHold_cons]
        abel

end KMap

end KDoth

------------------------------------------------------------
-- Private Objects
------------------------------------------------------------

namespace KDoth

namespace KMap

open Command

variable {allocator : Allocator}

/-
  Counted once, the map owns itself and the objects inside
  it.
-/
theorem Private.has
    {map : KMap}
    {p : Process}
    (hPrivate : map.Private p) :
    map.Has [] (p.references - Owned.holds map)
      (p.setCount map.address 1) := by
  have hSelf := (List.nodup_cons.mp hPrivate.nodup).1
  constructor
  · rw [Process.setCount_references, sub_add_cancel]
  · rw [List.append_nil]
    exact hPrivate.nodup
  · intro a ha
    rw [List.append_nil, addresses_eq_cons] at ha
    rcases List.mem_cons.mp ha with hEq | hInside
    · rw [hEq]
      exact ⟨hPrivate.live, by simp⟩
    · have hNe : a ≠ map.address := by
        intro hEq
        rw [hEq] at hInside
        exact hSelf hInside
      simpa [hNe] using hPrivate.unique a hInside

/- And the other way around. -/
theorem Has.private
    {map : KMap}
    {L : Ledger}
    {p : Process}
    (hHas : map.Has [] L (p.setCount map.address 1)) :
    map.Private p := by
  have hNodup : (map.address :: map.parts).Nodup := by
    have hAll := hHas.nodup
    rw [List.append_nil] at hAll
    exact hAll
  have hSelf := (List.nodup_cons.mp hNodup).1
  have hUnique :
      ∀ a ∈ map.address :: map.parts,
        a < p.nextAddress ∧
          (p.setCount map.address 1).refCount a = 1 := by
    intro a ha
    apply hHas.unique
    rw [List.append_nil]
    exact ha
  refine ⟨hNodup, (hUnique _ List.mem_cons_self).1, ?_⟩
  intro a ha
  have hNe : a ≠ map.address := by
    intro hEq
    rw [hEq] at ha
    exact hSelf ha
  simpa [hNe] using hUnique a (List.mem_cons_of_mem _ ha)

/-
  A call keeps the inside of its map private, and the
  references to the client's objects follow the map.
-/
theorem Private.setValue
    {map map' : KMap}
    {key value : Option KObjectRef}
    {set : Bool}
    {p q : Process}
    (hPrivate : map.Private p)
    (hCall :
      map.setValue allocator key value p = .ok (map', set) q) :
    map'.Private q ∧
      q.references =
        p.references - Owned.holds map + Owned.holds map' := by
  have hSelf := (List.nodup_cons.mp hPrivate.nodup).1
  rcases
      (ignores_setValue key value hSelf).run_setCount
        hPrivate.live hCall 1 with
    ⟨hRun, hApart⟩
  have hLeads :=
    leads_setValue allocator map key value []
      (p.references - Owned.holds map) _ hPrivate.has
  unfold wp at hLeads
  rw [hRun] at hLeads
  have hHas :
      map'.Has [] (p.references - Owned.holds map)
        (q.setCount map'.address 1) := by
    have hAddress : map'.address = map.address := hApart.address
    rw [hAddress]
    exact hLeads
  exact ⟨hHas.private, hHas.references⟩

/- The inside of a new map is private. -/
theorem private_created
    {hash : KObjectRef → UInt64}
    {equal : KObjectRef → KObjectRef → Bool}
    {n : Nat}
    {map : KMap}
    {p q : Process}
    (hCreated :
      allocWithBucketCount allocator hash equal n p =
        .ok (some map) q) :
    map.Private q := by
  have hLeads :=
    leads_allocWithBucketCount allocator hash equal n []
      p.references p ⟨rfl, List.nodup_nil, by simp⟩
  unfold wp at hLeads
  rw [hCreated] at hLeads
  have hHas : map.Has [] p.references q := hasOrNull_some.mp hLeads
  have hOne : q.refCount map.address = 1 :=
    (hHas.unique map.address (by simp [addresses_eq_cons])).2
  apply Has.private (L := p.references)
  rw [← hOne, Process.setCount_self]
  exact hHas

/- A removal is made in place. -/
theorem address_removeValue
    (map : KMap)
    (key : KObjectRef) :
    (map.removeValue (some key)).1.address = map.address := by
  have hPut :
      ∀ bucket : KList KMapEntry,
        (map.putBucket key bucket).address = map.address := by
    intro bucket
    unfold putBucket
    cases map.buckets <;> rfl
  unfold KMap.removeValue
  cases hBucket : map.getBucket key with
  | none => simp only [hBucket]
  | some bucket =>
      cases hFind :
          KMapEntry.find? map.equal key bucket.items with
      | none => simp only [hBucket, hFind]
      | some found =>
          rcases found with ⟨i, entry⟩
          have hEntry := (KMapEntry.find?_eq_some hFind).1
          simp only [hBucket, hFind, KList.removeObjectAtIndex,
            hEntry, hPut]

/- Removing keeps the inside of the map private. -/
theorem Private.removeValue
    {map : KMap}
    {p : Process}
    (hPrivate : map.Private p)
    (key : Option KObjectRef) :
    (map.removeValue key).1.Private p := by
  cases key with
  | none => exact hPrivate
  | some key =>
      cases hRemoved : (map.removeValue (some key)).2 with
      | false =>
          rw [removeValue_eq_self hRemoved]
          exact hPrivate
      | true =>
          rcases hPrivate.has.removeValue key hRemoved with
            ⟨entry, hHas⟩
          apply Has.private
            (L := p.references - Owned.holds map +
              Owned.holds entry)
          rw [address_removeValue]
          exact hHas

end KMap

end KDoth

------------------------------------------------------------
-- Main Result
------------------------------------------------------------

namespace KDoth

namespace KMap

open Command

variable {allocator : Allocator}

/- Library objects outside of the map keep their counts. -/
theorem refCount_setValue
    {map map' : KMap}
    {key value : Option KObjectRef}
    {set : Bool}
    {p q : Process}
    (hCall :
      map.setValue allocator key value p = .ok (map', set) q)
    {a : Nat}
    (hLive : a < p.nextAddress)
    (hOutside : a ∉ map.parts) :
    q.refCount a = p.refCount a :=
  (ignores_setValue key value hOutside).refCount_eq hLive hCall

/-
  What is known of the map when the call returns, whatever
  `hash` and `equal` do. Nothing is stored for NULL.
-/
theorem setValue_returns
    {map map' : KMap}
    {key value : Option KObjectRef}
    {set : Bool}
    {p q : Process}
    (hShaped : map.Shaped)
    (hAlive : ¬ p.Refused allocator)
    (hCall :
      map.setValue allocator key value p = .ok (map', set) q) :
    (set = false → map' = map) ∧
      (set = true →
        ∃ k v mid,
          key = some k ∧ value = some v ∧
            Stored map k v mid ∧ Rehashed mid map') := by
  cases key with
  | none =>
      rw [setValue_null map (Or.inl rfl)] at hCall
      cases hCall
      exact ⟨fun _ => rfl, by simp⟩
  | some k =>
      cases value with
      | none =>
          rw [setValue_null map (Or.inr rfl)] at hCall
          cases hCall
          exact ⟨fun _ => rfl, by simp⟩
      | some v =>
          have hRuns :=
            runs_setValue (A := True) hShaped k v
              (Or.inl True.intro) p hAlive
          unfold wp at hRuns
          rw [hCall] at hRuns
          constructor
          · intro hFalse
            exact (hRuns.2.refused hFalse).1
          · intro hTrue
            rcases hRuns.2.stored hTrue with
              ⟨mid, hStored, _, _, hAfter⟩
            exact ⟨k, v, mid, rfl, rfl, hStored, hAfter⟩

/-
  A call that returns false leaves the map, the references to
  the client's objects and every count as they were. One that
  returns true has updated the pairs, the object count and
  those references like an insertion or an overwrite, and
  left the counts outside of the map as they were. No
  property of `hash` and `equal` is needed.
-/
theorem setValue_atomic
    (allocator : Allocator)
    (map : KMap)
    (hShaped : map.Shaped)
    (p : Process)
    (hAlive : ¬ p.Refused allocator)
    (hPrivate : map.Private p)
    (key value : Option KObjectRef)
    (map' : KMap)
    (set : Bool)
    (q : Process)
    (hCall :
      map.setValue allocator key value p = .ok (map', set) q) :
    map'.Shaped ∧ map'.Private q ∧
      (set = false →
        map' = map ∧ q.references = p.references ∧
          ∀ a < p.nextAddress, q.refCount a = p.refCount a) ∧
      (set = true →
        ∃ k v,
          key = some k ∧ value = some v ∧
            Updates map k v map' p.references q.references ∧
            ∀ a < p.nextAddress,
              a ∉ map.parts → q.refCount a = p.refCount a) := by
  rcases hPrivate.setValue hCall with ⟨hKept, hReferences⟩
  rcases setValue_returns hShaped hAlive hCall with
    ⟨hRefused, hStored⟩
  refine ⟨?_, hKept, ?_, ?_⟩
  · cases set with
    | false =>
        rw [hRefused rfl]
        exact hShaped
    | true =>
        rcases hStored rfl with ⟨_, _, _, _, _, _, hAfter⟩
        exact hAfter.shaped
  · intro hFalse
    have hSame := hRefused hFalse
    subst hSame
    refine ⟨rfl, ?_, ?_⟩
    · rw [hReferences, sub_add_cancel]
    · intro a hLive
      by_cases hInside : a ∈ map'.parts
      · rw [(hKept.unique a hInside).2,
          (hPrivate.unique a hInside).2]
      · exact refCount_setValue hCall hLive hInside
  · intro hTrue
    rcases hStored hTrue with
      ⟨k, v, mid, hKey, hValue, hMid, hAfter⟩
    refine
      ⟨k, v, hKey, hValue, hMid.updates hAfter hReferences, ?_⟩
    intro a hLive hOutside
    exact refCount_setValue hCall hLive hOutside

/- A map with an entry in its bucket, and its process. -/
def single : KMap where
  address := 0
  hash := fun _ => 7
  equal := fun a b => decide (a = b)
  buckets :=
    some
      { address := 1
        items :=
          some { address := 2, size := 8, hasBuffer := true }
        slots :=
          [{ address := 3
             items :=
              [{ address := 4, key := ⟨1⟩, value := ⟨10⟩ }] }] }
  objectCount := 1

def singleProcess : Process where
  requests := []
  nextAddress := 5
  refCount := fun _ => 1
  references := fun o => if o = ⟨1⟩ ∨ o = ⟨10⟩ then 1 else 0

theorem shaped_single : single.Shaped := by
  refine ⟨⟨⟨_, rfl, ⟨_, rfl, fun _ => rfl⟩, ?_⟩, ?_, ?_⟩, rfl⟩
  · intro bucket _ entry _
    trivial
  · decide
  · intro i bucket hBucket entry _
    have hFirst : i < 1 :=
      (List.getElem?_eq_some_iff.mp hBucket).1
    have hIndex : single.bucketIndex entry.key = 0 :=
      Nat.mod_one _
    omega

theorem private_single : single.Private singleProcess := by
  refine ⟨by decide, by decide, ?_⟩
  intro a ha
  have hParts : a ∈ [1, 2, 3, 4] := ha
  refine ⟨?_, rfl⟩
  change a < 5
  simp only [List.mem_cons, List.not_mem_nil, or_false]
    at hParts
  omega

/-
  The growth of the map copies its first entry and is refused
  the second one. The call still stored the pair.
-/
theorem setValue_atomic_abandoned :
    ∃ map' q,
      single.setValue (fun n => n != 11) (some ⟨2⟩) (some ⟨20⟩)
          singleProcess =
        .ok (map', true) q ∧
        map'.bucketCount = 1 ∧
        map'.Shaped ∧
        Updates single ⟨2⟩ ⟨20⟩ map' singleProcess.references
          q.references ∧
        ∀ a < singleProcess.nextAddress,
          a ∉ single.parts →
            q.refCount a = singleProcess.refCount a := by
  have hAlive : ¬ singleProcess.Refused (fun n => n != 11) := by
    intro hRefused
    rcases hRefused with ⟨i, site, hSite, _⟩
    cases hSite
  have hSet :
      (match
          single.setValue (fun n => n != 11) (some ⟨2⟩)
            (some ⟨20⟩) singleProcess with
        | .ok r _ => r.2 && r.1.bucketCount == 1
        | .error _ _ => false) = true := by
    decide +kernel
  cases hCall :
      single.setValue (fun n => n != 11) (some ⟨2⟩)
        (some ⟨20⟩) singleProcess with
  | error e q =>
      rw [hCall] at hSet
      cases hSet
  | ok r q =>
      rcases r with ⟨map', set⟩
      rw [hCall] at hSet
      simp only [Bool.and_eq_true, beq_iff_eq] at hSet
      rcases hSet with ⟨rfl, hCount⟩
      have hKept :=
        setValue_atomic (fun n => n != 11) single shaped_single
          singleProcess hAlive private_single (some ⟨2⟩)
          (some ⟨20⟩) map' true q hCall
      rcases hKept.2.2.2 rfl with ⟨k, v, hKey, hValue, hDone⟩
      cases hKey
      cases hValue
      exact ⟨map', q, rfl, hCount, hKept.1, hDone⟩

end KMap

end KDoth
