import KDoth.Map.Growth

/-
  The representation of a map after any history of calls that
  change it, with an allocator that may refuse any request.

  Key definitions include:
    * `KMap.Sound`
    * `KMap.Reached`

  Key theorems include:
    * `KMap.Reached.kept`
    * `KMap.reached_sound`
-/

------------------------------------------------------------
-- Maps That Are Reached
------------------------------------------------------------

namespace KDoth

namespace KMap

/-
  Every entry is in the bucket of its hash, no two entries
  have equal keys, and the object count is the sum of the
  counts of the buckets.
-/
structure Sound (map : KMap) : Prop where
  placed :
    ∀ i bucket,
      map.slots[i]? = some bucket →
        ∀ entry ∈ bucket.items,
          (map.hash entry.key).toNat % map.bucketCount = i
  distinct :
    map.entries.Pairwise
      (fun x y => map.equal x.key y.key = false)
  objectCount :
    map.objectCount = (map.slots.map KList.getCount).sum

/-
  The maps that calls can make of a new map. Each call has a
  process and an allocator of its own: nothing is assumed
  about what happens in between, other than that no refused
  request has stopped the process.
-/
inductive Reached
    (hash : KObjectRef → UInt64)
    (equal : KObjectRef → KObjectRef → Bool) :
    KMap → Prop
| created
    {allocator : Allocator}
    {p q : Process}
    {n : Nat}
    {map : KMap}
    (hAlive : ¬ p.Refused allocator)
    (hCreated :
      allocWithBucketCount allocator hash equal n p =
        .ok (some map) q) :
    Reached hash equal map
| setValue
    {allocator : Allocator}
    {p q : Process}
    {map : KMap}
    {key value : Option KObjectRef}
    {r : KMap × Bool}
    (hMap : Reached hash equal map)
    (hAlive : ¬ p.Refused allocator)
    (hSet : map.setValue allocator key value p = .ok r q) :
    Reached hash equal r.1
| removeValue
    {map : KMap}
    (hMap : Reached hash equal map)
    (key : Option KObjectRef) :
    Reached hash equal (map.removeValue key).1

/- What the calls keep. -/
structure Kept
    (hash : KObjectRef → UInt64)
    (equal : KObjectRef → KObjectRef → Bool)
    (map : KMap) : Prop where
  shaped : map.Shaped
  hash : map.hash = hash
  equal : map.equal = equal
  distinct : map.Distinct

end KMap

end KDoth

------------------------------------------------------------
-- Calls Keep The Representation
------------------------------------------------------------

namespace KDoth

namespace KMap

open Command

variable {hash : KObjectRef → UInt64}
variable {equal : KObjectRef → KObjectRef → Bool}
variable {allocator : Allocator} {A : Prop}

/- What is kept is what was promised. -/
theorem Kept.sound
    {map : KMap}
    (hKept : Kept hash equal map) :
    map.Sound := by
  have hCount := hKept.shaped.count
  constructor
  · exact hKept.shaped.placed
  · exact List.pairwise_map.mp hKept.distinct
  · rw [hCount, entries_eq, List.length_flatMap]
    rfl

/- The functions of a kept map are consistent. -/
theorem Kept.consistent
    {map : KMap}
    (hCons : ConsistentHash hash equal)
    (hKept : Kept hash equal map) :
    A ∨ ConsistentHash map.hash map.equal ∧ map.Distinct := by
  right
  rw [hKept.hash, hKept.equal]
  exact ⟨hCons, hKept.distinct⟩

/- A map that is created has no entries. -/
theorem Fresh.kept
    {map : KMap}
    {n : Nat}
    (hFresh : Fresh hash equal n map) :
    Kept hash equal map := by
  refine ⟨hFresh.shaped, hFresh.hash, hFresh.equal, ?_⟩
  unfold Distinct
  rw [hFresh.contents]
  exact List.Pairwise.nil

/- Nothing is stored for NULL. -/
theorem setValue_null
    (map : KMap)
    {key value : Option KObjectRef}
    (hNull : key = none ∨ value = none) :
    map.setValue allocator key value = pure (map, false) := by
  rcases hNull with hKey | hValue
  · subst hKey
    cases value with
    | none => rfl
    | some value => rfl
  · subst hValue
    rfl

/- Storing keeps the representation, whether it succeeds. -/
theorem Kept.setResult
    {map : KMap}
    {key value : KObjectRef}
    {r : KMap × Bool}
    (hCons : ConsistentHash hash equal)
    (hKept : Kept hash equal map)
    (hResult : SetResult allocator map key value r) :
    Kept hash equal r.1 := by
  rcases r with ⟨next, set⟩
  cases set with
  | false =>
      have hSame : next = map := (hResult.refused rfl).1
      rw [hSame]
      exact hKept
  | true =>
      rcases hResult.stored rfl with
        ⟨mid, hStored, hTable, _, hAfter⟩
      have hNext : Rehashed mid next := hAfter
      have hMid : ConsistentHash mid.hash mid.equal := by
        rw [hTable.hash, hTable.equal, hKept.hash, hKept.equal]
        exact hCons
      have hOld : ConsistentHash map.hash map.equal := by
        rw [hKept.hash, hKept.equal]
        exact hCons
      have hDistinct : mid.Distinct :=
        hStored.distinct hOld hKept.distinct hTable.equal
      refine ⟨hNext.shaped, ?_, ?_, ?_⟩
      · rw [hNext.hash, hTable.hash, hKept.hash]
      · rw [hNext.equal, hTable.equal, hKept.equal]
      · unfold Distinct
        rw [hNext.equal, pairwise_perm hMid hNext.contents]
        exact hDistinct

/- `KMapSetValue` keeps the representation. -/
theorem Kept.runs_setValue
    {map : KMap}
    (hCons : ConsistentHash hash equal)
    (hKept : Kept hash equal map)
    (key value : Option KObjectRef) :
    Runs allocator A (map.setValue allocator key value)
      (fun r => Kept hash equal r.1) := by
  cases key with
  | none =>
      rw [setValue_null map (Or.inl rfl)]
      exact Runs.ret hKept
  | some key =>
      cases value with
      | none =>
          rw [setValue_null map (Or.inr rfl)]
          exact Runs.ret hKept
      | some value =>
          apply
            (KMap.runs_setValue hKept.shaped key value
              (hKept.consistent hCons)).mono
          intro r hResult
          exact hKept.setResult hCons hResult

/- Removing keeps the representation. -/
theorem Kept.removeValue
    {map : KMap}
    (hCons : ConsistentHash hash equal)
    (hKept : Kept hash equal map)
    (key : Option KObjectRef) :
    Kept hash equal (map.removeValue key).1 := by
  cases key with
  | none => exact hKept
  | some key =>
      rcases removeValue_spec hKept.shaped key with
        ⟨old, rest, hPresent, _, hShaped, hTable, hRest⟩ |
          ⟨_, hSame⟩
      · refine ⟨hShaped, ?_, ?_, ?_⟩
        · rw [hTable.hash, hKept.hash]
        · rw [hTable.equal, hKept.equal]
        · have hOld : ConsistentHash map.hash map.equal := by
            rw [hKept.hash, hKept.equal]
            exact hCons
          have hAll := hKept.distinct
          unfold Distinct at hAll ⊢
          rw [pairwise_perm hOld hPresent.contents,
            List.pairwise_cons] at hAll
          rw [hTable.equal, pairwise_perm hOld hRest]
          exact hAll.2
      · rw [hSame]
        exact hKept

/- By induction on the history, every reached map is kept. -/
theorem Reached.kept
    {map : KMap}
    (hCons : ConsistentHash hash equal)
    (hReached : Reached hash equal map) :
    Kept hash equal map := by
  induction hReached with
  | @created _ p _ n _ hAlive hCreated =>
      have hRuns :=
        runs_allocWithBucketCount (A := False) hash equal n p
          hAlive
      unfold wp at hRuns
      rw [hCreated] at hRuns
      exact (hRuns.2.2 _ rfl).kept
  | @setValue _ p _ _ key value _ _ hAlive hSet ih =>
      have hRuns :=
        ih.runs_setValue (A := False) hCons key value p hAlive
      unfold wp at hRuns
      rw [hSet] at hRuns
      exact hRuns.2
  | removeValue hMap key ih => exact ih.removeValue hCons key

end KMap

end KDoth

------------------------------------------------------------
-- Main Result
------------------------------------------------------------

namespace KDoth

namespace KMap

open Command

variable {hash : KObjectRef → UInt64}
variable {equal : KObjectRef → KObjectRef → Bool}
variable {allocator : Allocator}

/-
  The map is roomy, or a capacity wrapped around in the call
  and would do so again.
-/
theorem Kept.succeeds_setValue
    {map : KMap}
    (hCons : ConsistentHash hash equal)
    (hKept : Kept hash equal map)
    (good : AllocationSite → Prop)
    (key value : Option KObjectRef) :
    Succeeds allocator good (map.setValue allocator key value)
      (fun r => r.2 = true → Roomy good r.1) := by
  cases key with
  | none =>
      rw [setValue_null map (Or.inl rfl)]
      exact Succeeds.ret (by simp)
  | some key =>
      cases value with
      | none =>
          rw [setValue_null map (Or.inr rfl)]
          exact Succeeds.ret (by simp)
      | some value =>
          apply
            (KMap.succeeds_setValue (A := False) hKept.shaped key
              value (hKept.consistent hCons)).mono
          intro r hRoomy _
          exact hRoomy.2

/-
  Every map that is reached is sound, whatever requests were
  refused on the way. The next `KMapSetValue` returns, or
  stops at the NULL that a refused allocation of a bucket
  array leaves: it neither fails an assertion nor nests its
  rehashes without end. If it succeeds and its own requests
  were granted, there are more buckets than objects, unless
  the capacity of a bucket array wrapped around, which takes
  more than 2^28 buckets.
-/
theorem reached_sound
    (hash : KObjectRef → UInt64)
    (equal : KObjectRef → KObjectRef → Bool)
    (hCons : ConsistentHash hash equal)
    (map : KMap)
    (hReached : Reached hash equal map) :
    map.Sound ∧
      ∀ (allocator : Allocator) (p : Process)
          (key value : Option KObjectRef),
        ¬ p.Refused allocator →
          wp (map.setValue allocator key value)
            (fun r q =>
              r.2 = true →
                p.Answered allocator (fun _ => True) q →
                  r.1.objectCount < r.1.bucketCount ∨
                    .truncate 0 ∈
                        q.requests.drop p.requests.length ∧
                      2 ^ 28 <
                        r.1.bucketCount * kMapBucketGrowthFactor)
            (fun e q =>
              e = .nullDereference ∧ q.Refused allocator) p := by
  have hKept := hReached.kept hCons
  refine ⟨hKept.sound, ?_⟩
  intro allocator p key value hAlive
  have hRuns :=
    hKept.runs_setValue (A := False) hCons key value p hAlive
  have hAny :=
    hKept.succeeds_setValue hCons (fun _ => True) key value p
      hAlive
  have hFits :=
    hKept.succeeds_setValue hCons (fun site => site ≠ .truncate 0)
      key value p hAlive
  apply wp_mono (wp_and hRuns (wp_and hAny hFits))
  · intro r q hr hSet hGranted
    rcases hr.2.1.2 hGranted hSet with hLess | ⟨_, hBig⟩
    · exact Or.inl hLess
    · by_cases hWrapped :
          .truncate 0 ∈ q.requests.drop p.requests.length
      · exact Or.inr ⟨hWrapped, hBig⟩
      · left
        have hGood :
            p.Answered allocator
              (fun site => site ≠ .truncate 0) q := by
          intro i site hLe hGet
          refine ⟨(hGranted i site hLe hGet).1, ?_⟩
          intro hSite
          apply hWrapped
          rw [← hSite]
          apply List.mem_of_getElem? (i := i - p.requests.length)
          rw [List.getElem?_drop, Nat.add_sub_cancel' hLe]
          exact hGet
        rcases hr.2.2.2 hGood hSet with hLess | ⟨hBad, _⟩
        · exact hLess
        · exact absurd rfl hBad
  · intro e q hStop
    cases e with
    | assertFailed => exact absurd hStop.1.1 (fun h => h)
    | nullDereference => exact ⟨rfl, hStop.1⟩
    | outOfFuel => exact absurd hStop.1 (fun h => h)

/- A new map of one bucket, whose keys all collide. -/
theorem reached_sound_created :
    ∃ map : KMap,
      map.bucketCount = 1 ∧ map.Sound ∧
        wp
          (map.setValue (fun _ => true) (some ⟨1⟩)
            (some ⟨10⟩))
          (fun r q =>
            r.2 = true →
              Process.initial.Answered (fun _ => true)
                  (fun _ => True) q →
                r.1.objectCount < r.1.bucketCount ∨
                  .truncate 0 ∈
                      q.requests.drop
                        Process.initial.requests.length ∧
                    2 ^ 28 <
                      r.1.bucketCount * kMapBucketGrowthFactor)
          (fun e q =>
            e = .nullDereference ∧ q.Refused (fun _ => true))
          Process.initial := by
  have hAlive : ¬ Process.initial.Refused (fun _ => true) :=
    Process.not_refused_of_granted (fun _ => rfl)
  have hSound :=
    reached_sound (fun _ => 7) (fun a b => decide (a = b))
      (ConsistentHash.identity fun _ => 7) _
      (.created (n := 1) hAlive rfl)
  exact
    ⟨_, rfl, hSound.1,
      hSound.2 (fun _ => true) Process.initial (some ⟨1⟩)
        (some ⟨10⟩) hAlive⟩

end KMap

end KDoth
