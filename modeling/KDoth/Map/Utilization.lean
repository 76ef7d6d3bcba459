import KDoth.Map.Representation
import Mathlib.Algebra.Order.BigOperators.Group.List

/-
  How full the buckets of a map get. A map that grows splits
  its buckets: the number of buckets becomes a multiple, so
  the entries of a new bucket are all from one old bucket.

  Key definitions include:
    * `KMap.maxBucketUtilization`
    * `KMap.crowd`

  Key theorems include:
    * `KMap.maxBucketUtilization_le_iff`
    * `KMap.crowd_le_of_dvd`
    * `KMap.runs_setValue_dvd`
    * `KMap.utilization_bounded`
-/

------------------------------------------------------------
-- The Fullest Bucket
------------------------------------------------------------

namespace KDoth

namespace KMap

/- The loop of `KMapGetMaxBucketUtilization`. -/
def maxUtilization
    (map : KMap) :
    Nat → Nat → Nat → Nat
| 0, _, utilization => utilization
| turns + 1, i, utilization =>
    let bucketCount :=
      match map.bucketAt i with
      | none => 0
      | some bucket => bucket.getCount
    maxUtilization map turns (i + 1)
      (if bucketCount > utilization then bucketCount
      else utilization)

/- `KMapGetMaxBucketUtilization` -/
def maxBucketUtilization (map : KMap) : Nat :=
  map.maxUtilization map.bucketCount 0 0

/- The loop finds the largest of what is left. -/
theorem maxUtilization_le_iff
    (map : KMap)
    {turns i utilization m : Nat}
    (hRest : i + turns = map.slots.length) :
    map.maxUtilization turns i utilization ≤ m ↔
      utilization ≤ m ∧
        ∀ bucket ∈ map.slots.drop i, bucket.getCount ≤ m := by
  induction turns generalizing i utilization with
  | zero =>
      rw [List.drop_of_length_le (by omega)]
      simp [maxUtilization]
  | succ turns ih =>
      have hLt : i < map.slots.length := by omega
      have hGet : map.bucketAt i = some map.slots[i] := by
        rw [bucketAt_eq]
        exact List.getElem?_eq_getElem hLt
      simp only [maxUtilization, hGet]
      rw [ih (by omega), List.drop_eq_getElem_cons hLt,
        List.forall_mem_cons, ← and_assoc]
      apply and_congr_left
      intro _
      split
      · omega
      · omega

theorem maxBucketUtilization_le_iff
    (map : KMap)
    {m : Nat} :
    map.maxBucketUtilization ≤ m ↔
      ∀ bucket ∈ map.slots, bucket.getCount ≤ m := by
  unfold maxBucketUtilization
  rw [maxUtilization_le_iff map
    (by rw [bucketCount_eq, Nat.zero_add])]
  simp

/- The pairs whose keys would share a bucket of `n`. -/
def crowd (map : KMap) (n i : Nat) : Nat :=
  map.contents.countP
    (fun x => (map.hash x.1).toNat % n == i)

end KMap

/- Lists that sort their members are counted by the sorting. -/
theorem length_of_sorted
    {α : Type}
    (place : α → Nat)
    (lists : List (List α))
    {k i : Nat}
    {list : List α}
    (hPlaced :
      ∀ j l, lists[j]? = some l → ∀ x ∈ l, place x = k + j)
    (hList : lists[i]? = some list) :
    list.length =
      lists.flatten.countP (fun x => place x == k + i) := by
  induction lists generalizing k i with
  | nil => cases hList
  | cons first lists ih =>
      have hFirst := hPlaced 0 first rfl
      have hLater :
          ∀ j l,
            lists[j]? = some l →
              ∀ x ∈ l, place x = k + 1 + j := by
        intro j l hGet x hx
        have hPlace := hPlaced (j + 1) l hGet x hx
        omega
      rw [List.flatten_cons, List.countP_append]
      cases i with
      | zero =>
          have hSame : first = list := by simpa using hList
          subst hSame
          have hAll :
              first.countP (fun x => place x == k + 0) =
                first.length := by
            rw [List.countP_eq_length]
            intro x hx
            simp [hFirst x hx]
          have hNone :
              lists.flatten.countP
                (fun x => place x == k + 0) = 0 := by
            rw [List.countP_eq_zero]
            intro x hx
            rcases List.mem_flatten.mp hx with ⟨l, hl, hMem⟩
            rcases List.mem_iff_getElem?.mp hl with ⟨j, hGet⟩
            have hPlace := hLater j l hGet x hMem
            simp only [beq_iff_eq]
            omega
          rw [hAll, hNone]
          rfl
      | succ i =>
          have hNone :
              first.countP (fun x => place x == k + (i + 1)) =
                0 := by
            rw [List.countP_eq_zero]
            intro x hx
            have hPlace := hFirst x hx
            simp only [beq_iff_eq]
            omega
          rw [hNone, Nat.zero_add, ih hLater hList]
          have hSame : k + 1 + i = k + (i + 1) := by omega
          rw [hSame]

namespace KMap

variable {map map' : KMap}

/- A bucket has the pairs that belong in it. -/
theorem Built.getCount_eq
    (hBuilt : map.Built)
    {i : Nat}
    {bucket : KList KMapEntry}
    (hBucket : map.slots[i]? = some bucket) :
    bucket.getCount = map.crowd map.bucketCount i := by
  have hSorted :
      bucket.items.length =
        (map.slots.map KList.items).flatten.countP
          (fun x => map.bucketIndex x.key == 0 + i) := by
    apply length_of_sorted
    · intro j l hGet x hx
      rw [List.getElem?_map] at hGet
      rcases Option.map_eq_some_iff.mp hGet with
        ⟨b, hSlot, rfl⟩
      rw [Nat.zero_add]
      exact hBuilt.placed j b hSlot x hx
    · rw [List.getElem?_map, hBucket]
      rfl
  unfold crowd contents
  rw [List.countP_map, entries_eq, List.flatMap_def]
  rw [Nat.zero_add] at hSorted
  exact hSorted

theorem Built.crowd_le
    (hBuilt : map.Built)
    {i : Nat}
    (hIndex : i < map.bucketCount) :
    map.crowd map.bucketCount i ≤ map.maxBucketUtilization := by
  rw [bucketCount_eq] at hIndex
  have hBucket := List.getElem?_eq_getElem hIndex
  rw [← hBuilt.getCount_eq hBucket]
  have hMost :=
    (map.maxBucketUtilization_le_iff (m := _)).mp
      (Nat.le_refl _)
  exact hMost _ (List.getElem_mem hIndex)

/- A bucket of a multiple is a part of a bucket. -/
theorem crowd_le_of_dvd
    (map : KMap)
    {m n : Nat}
    (hDvd : m ∣ n)
    (i : Nat) :
    map.crowd n i ≤ map.crowd m (i % m) := by
  apply List.countP_mono_left
  intro x _ hHere
  rw [beq_iff_eq] at hHere ⊢
  rw [← hHere, Nat.mod_mod_of_dvd _ hDvd]

/- More buckets and some pairs more. -/
theorem utilization_le
    {d : Nat}
    (hBuilt : map.Built)
    (hBuilt' : map'.Built)
    (hDvd : map.bucketCount ∣ map'.bucketCount)
    (hCrowd :
      ∀ n i, map'.crowd n i ≤ map.crowd n i + d) :
    map'.maxBucketUtilization ≤
      map.maxBucketUtilization + d := by
  rw [maxBucketUtilization_le_iff]
  intro bucket hMem
  rcases List.mem_iff_getElem?.mp hMem with ⟨i, hBucket⟩
  calc bucket.getCount
      = map'.crowd map'.bucketCount i :=
        hBuilt'.getCount_eq hBucket
    _ ≤ map.crowd map'.bucketCount i + d := hCrowd _ i
    _ ≤ map.crowd map.bucketCount (i % map.bucketCount) + d :=
        Nat.add_le_add_right (crowd_le_of_dvd map hDvd i) d
    _ ≤ map.maxBucketUtilization + d :=
        Nat.add_le_add_right
          (hBuilt.crowd_le (Nat.mod_lt _ hBuilt.nonempty)) d

end KMap

end KDoth

------------------------------------------------------------
-- Buckets Are Split
------------------------------------------------------------

namespace KDoth

namespace KMap

variable {allocator : Allocator} {A : Prop}

/- Storing splits buckets if the rehash does. -/
theorem runs_setValueWith_dvd
    {rehash : KMap → Call (KMap × Bool)}
    {map : KMap}
    (hShaped : map.Shaped)
    (key value : KObjectRef)
    (hRehash :
      ∀ mid,
        Stored map key value mid → SameTable map mid →
          mid.Shaped →
            Runs allocator A (rehash mid)
              (fun r => mid.bucketCount ∣ r.1.bucketCount)) :
    Runs allocator A
      (setValueWith allocator rehash map (some key)
        (some value))
      (fun r => map.bucketCount ∣ r.1.bucketCount) := by
  apply Runs.bind (runs_setValueNoRehash hShaped key value)
  rintro ⟨mid, set⟩ ⟨hMid, hTable, hStored, _⟩
  have hBuckets : mid.bucketCount = map.bucketCount :=
    hTable.bucketCount
  cases set with
  | false => exact Runs.ret (dvd_of_eq hBuckets.symm)
  | true =>
      apply Runs.bind (hRehash mid (hStored rfl) hTable hMid)
      intro r hDvd
      rw [hBuckets] at hDvd
      exact Runs.ret hDvd

/- The copying loop only splits the buckets of the copy. -/
theorem runs_copyEntries_dvd
    {setValue :
      KMap → Option KObjectRef → Option KObjectRef →
        Call (KMap × Bool)}
    {map : KMap}
    (hSet :
      ∀ done entry rest newMap,
        done ++ entry :: rest = map.entries →
          Copied map done newMap →
            Runs allocator A
              (setValue newMap (some entry.key)
                (some entry.value))
              (SetResult allocator newMap entry.key
                entry.value))
    (hSplit :
      ∀ done entry rest newMap,
        done ++ entry :: rest = map.entries →
          Copied map done newMap →
            Runs allocator A
              (setValue newMap (some entry.key)
                (some entry.value))
              (fun r => newMap.bucketCount ∣ r.1.bucketCount))
    (done rest : List KMapEntry)
    (hEntries : done ++ rest = map.entries)
    {newMap : KMap}
    (hCopied : Copied map done newMap) :
    Runs allocator A (copyEntries setValue rest newMap)
      (fun r => newMap.bucketCount ∣ r.1.bucketCount) := by
  induction rest generalizing done newMap with
  | nil => exact Runs.ret (dvd_refl _)
  | cons entry rest ih =>
      apply
        Runs.bind
          ((hSet done entry rest newMap hEntries hCopied).and
            (hSplit done entry rest newMap hEntries hCopied))
      rintro ⟨next, set⟩ ⟨hResult, hDvd⟩
      cases set with
      | false => exact Runs.ret hDvd
      | true =>
          have hNext :
              done ++ [entry] ++ rest = map.entries := by
            simpa using hEntries
          apply
            (ih (done ++ [entry]) hNext
              (hCopied.step hResult)).mono
          intro r hLater
          exact dvd_trans hDvd hLater

/- Setting an entry of the map in its copy splits buckets. -/
theorem runs_setEntry_dvd
    {depth : Nat}
    {map : KMap}
    (hRehash :
      ∀ {next : KMap},
        next.Shaped →
          next.objectCount < next.bucketCount * 2 ^ depth →
            (A ∨
              ConsistentHash next.hash next.equal ∧
                next.Distinct) →
              Runs allocator A
                (rehashIfNecessary allocator depth next)
                (fun r =>
                  next.bucketCount ∣ r.1.bucketCount))
    (hShaped : map.Shaped)
    (hDepth :
      map.objectCount < map.bucketCount * 2 ^ (depth + 1))
    (hAssert :
      A ∨ ConsistentHash map.hash map.equal ∧ map.Distinct)
    (done : List KMapEntry)
    (entry : KMapEntry)
    (rest : List KMapEntry)
    (mid : KMap)
    (hSplit : done ++ entry :: rest = map.entries)
    (hCopied : Copied map done mid) :
    Runs allocator A
      (setValueWith allocator
        (rehashIfNecessary allocator depth) mid
        (some entry.key) (some entry.value))
      (fun r => mid.bucketCount ∣ r.1.bucketCount) := by
  apply runs_setValueWith_dvd hCopied.shaped
  intro next hStored hTable hNext
  apply hRehash hNext
  · exact hCopied.nested hShaped hDepth hSplit hStored hTable
  · exact hCopied.consistent hAssert hSplit hStored hTable

/- The map has the buckets of its copy. -/
theorem runs_adopt_dvd
    {map filled : KMap}
    (hShaped : map.Shaped)
    (hAssert :
      A ∨ ConsistentHash map.hash map.equal ∧ map.Distinct)
    (hCopied : Copied map map.entries filled)
    (hDvd : map.bucketCount ∣ filled.bucketCount) :
    Runs allocator A
      (do
        kAssert (map.getCount == filled.getCount)
        KObject.release { filled with buckets := map.buckets }
        pure ({ map with buckets := filled.buckets }, true))
      (fun r => map.bucketCount ∣ r.1.bucketCount) := by
  refine Runs.bind (Runs.ofAssert ?_) ?_
  · intro hFail
    rcases hAssert with hA | ⟨hCons, hDistinct⟩
    · exact hA
    · have hFull := hCopied.complete hCons hDistinct
      have hCount := hShaped.count
      simp [getCount, hFull, hCount] at hFail
  · intro _ _
    have hWellBuilt :
        SafeObject.WellBuilt
          { filled with buckets := map.buckets } :=
      hShaped.wellBuilt
    apply Runs.bind_release _ hWellBuilt
    exact Runs.ret hDvd

/- However deep rehashes nest, buckets are split. -/
theorem runs_rehashIfNecessary_dvd
    (depth : Nat)
    {map : KMap}
    (hShaped : map.Shaped)
    (hDepth :
      map.objectCount < map.bucketCount * 2 ^ depth)
    (hAssert :
      A ∨ ConsistentHash map.hash map.equal ∧ map.Distinct) :
    Runs allocator A (rehashIfNecessary allocator depth map)
      (fun r => map.bucketCount ∣ r.1.bucketCount) := by
  induction depth generalizing map with
  | zero =>
      have hLoad : map.getLoadFactor < kMapMaxLoadFactor := by
        rw [getLoadFactor_lt_iff hShaped.nonempty]
        simpa using hDepth
      unfold rehashIfNecessary
      rw [if_pos hLoad]
      exact Runs.ret (dvd_refl _)
  | succ depth ih =>
      unfold rehashIfNecessary
      by_cases hLoad : map.getLoadFactor < kMapMaxLoadFactor
      · rw [if_pos hLoad]
        exact Runs.ret (dvd_refl _)
      · rw [if_neg hLoad]
        apply
          Runs.bind
            (runs_allocWithBucketCount map.hash map.equal _)
        intro newMap hNew
        cases newMap with
        | none => exact Runs.ret (dvd_refl _)
        | some newMap =>
            simp only [copyBuckets_eq]
            have hFresh := hNew.2 newMap rfl
            have hTwice :
                map.bucketCount ∣ newMap.bucketCount :=
              Dvd.intro _ hFresh.bucketCount.symm
            have hRehash :
                ∀ {next : KMap},
                  next.Shaped →
                    next.objectCount <
                        next.bucketCount * 2 ^ depth →
                      (A ∨
                        ConsistentHash next.hash next.equal ∧
                          next.Distinct) →
                        Runs allocator A
                          (rehashIfNecessary allocator depth
                            next)
                          (fun r => Rehashed next r.1) :=
              runs_rehashIfNecessary depth
            have hSet :=
              runs_setEntry hRehash hShaped hDepth hAssert
            have hSplit :=
              runs_setEntry_dvd ih hShaped hDepth hAssert
            have hStart := Copied.start hFresh
            apply
              Runs.bind
                ((runs_copyEntries hSet [] map.entries rfl
                  hStart).and
                  (runs_copyEntries_dvd hSet hSplit []
                    map.entries rfl hStart))
            rintro ⟨filled, copied⟩ ⟨⟨hFilled, hAll⟩, hDvd⟩
            cases copied with
            | false =>
                apply Runs.bind_release filled hFilled.wellBuilt
                exact Runs.ret (dvd_refl _)
            | true =>
                exact
                  runs_adopt_dvd hShaped hAssert (hAll rfl)
                    (dvd_trans hTwice hDvd)

/- `KMapSetValue` splits buckets, or leaves them. -/
theorem runs_setValue_dvd
    {map : KMap}
    (hShaped : map.Shaped)
    (key value : KObjectRef)
    (hAssert :
      A ∨ ConsistentHash map.hash map.equal ∧ map.Distinct) :
    Runs allocator A
      (map.setValue allocator (some key) (some value))
      (fun r => map.bucketCount ∣ r.1.bucketCount) := by
  apply runs_setValueWith_dvd hShaped key value
  intro mid hStored hTable hMid
  exact
    runs_rehashIfNecessary_dvd _ hMid (hStored.depth hMid)
      (hStored.consistent hAssert hTable)

end KMap

end KDoth

------------------------------------------------------------
-- Main Result
------------------------------------------------------------

namespace KDoth

namespace KMap

open Command

variable {hash : KObjectRef → UInt64}
variable {equal : KObjectRef → KObjectRef → Bool}
variable {allocator : Allocator} {A : Prop} {map : KMap}

/- The pairs of a call that stored, by their bucket. -/
theorem SetResult.crowd_le
    {key value : KObjectRef}
    {r : KMap × Bool}
    (hResult : SetResult allocator map key value r)
    (n i : Nat) :
    r.1.crowd n i ≤ map.crowd n i + 1 := by
  rcases r with ⟨next, set⟩
  cases set with
  | false =>
      have hSame : next = map := (hResult.refused rfl).1
      rw [hSame]
      exact Nat.le_succ _
  | true =>
      rcases hResult.stored rfl with
        ⟨mid, hStored, hTable, _, hAfter⟩
      have hRehashed : Rehashed mid next := hAfter
      have hHash : next.hash = map.hash :=
        hRehashed.hash.trans hTable.hash
      show next.crowd n i ≤ _
      unfold crowd
      rw [hHash, hRehashed.contents.countP_eq]
      cases hStored with
      | found old rest hPresent hNew _ =>
          rw [hNew.countP_eq, hPresent.contents.countP_eq,
            List.countP_cons, List.countP_cons]
          exact Nat.le_succ _
      | fresh _ hNew _ =>
          rw [hNew.countP_eq, List.countP_cons]
          split
          · omega
          · omega

/- Removing takes at most one pair from each bucket. -/
theorem Kept.utilization_removeValue
    (hCons : ConsistentHash hash equal)
    (hKept : Kept hash equal map)
    (key : Option KObjectRef) :
    (map.removeValue key).1.maxBucketUtilization ≤
      map.maxBucketUtilization := by
  have hNext := hKept.removeValue hCons key
  cases key with
  | none => exact Nat.le_refl _
  | some key =>
      rcases removeValue_spec hKept.shaped key with
        ⟨old, rest, hPresent, _, hShaped, hTable, hRest⟩ |
          ⟨_, hSame⟩
      · apply
          utilization_le (d := 0) hKept.shaped.toBuilt
            hShaped.toBuilt (dvd_of_eq hTable.bucketCount.symm)
        intro n i
        unfold crowd
        rw [hTable.hash, hRest.countP_eq,
          hPresent.contents.countP_eq, List.countP_cons]
        omega
      · rw [hSame]

/- Storing adds at most one pair to each bucket. -/
theorem Kept.runs_utilization
    (hCons : ConsistentHash hash equal)
    (hKept : Kept hash equal map)
    (key value : Option KObjectRef) :
    Runs allocator A (map.setValue allocator key value)
      (fun r =>
        r.1.maxBucketUtilization ≤
          map.maxBucketUtilization + 1) := by
  by_cases hNull : key = none ∨ value = none
  · rw [setValue_null map hNull]
    exact Runs.ret (Nat.le_succ _)
  · rcases key with _ | key
    · exact absurd (Or.inl rfl) hNull
    · rcases value with _ | value
      · exact absurd (Or.inr rfl) hNull
      · have hShaped := hKept.shaped
        have hAssert :
            A ∨
              ConsistentHash map.hash map.equal ∧
                map.Distinct :=
          hKept.consistent hCons
        apply
          ((hKept.runs_setValue hCons _ _).and
            ((KMap.runs_setValue hShaped key value hAssert).and
              (runs_setValue_dvd hShaped key value
                hAssert))).mono
        rintro r ⟨hNext, hResult, hDvd⟩
        exact
          utilization_le hShaped.toBuilt hNext.shaped.toBuilt
            hDvd hResult.crowd_le

/- The objects are spread over the buckets. -/
theorem Kept.count_bounds
    (hKept : Kept hash equal map) :
    map.maxBucketUtilization ≤ map.getCount ∧
      map.getCount ≤
        map.bucketCount * map.maxBucketUtilization := by
  have hCount : map.getCount = map.entries.length :=
    hKept.shaped.count
  constructor
  · rw [maxBucketUtilization_le_iff]
    intro bucket hMem
    rcases List.mem_iff_getElem?.mp hMem with ⟨i, hBucket⟩
    rw [hKept.shaped.getCount_eq hBucket, hCount,
      ← length_contents]
    exact List.countP_le_length
  · rw [hCount, entries_eq, List.length_flatMap, bucketCount_eq]
    have hMost :=
      (map.maxBucketUtilization_le_iff).mp (Nat.le_refl _)
    have hSum :=
      List.sum_le_card_nsmul
        (map.slots.map fun bucket => bucket.items.length)
        map.maxBucketUtilization ?_
    · simpa using hSum
    · intro m hm
      rcases List.mem_map.mp hm with ⟨bucket, hMem, rfl⟩
      exact hMost bucket hMem

/-
  The fullest bucket of a map that is reached has no more
  entries than the map has objects, and no fewer than these
  spread evenly. No call on the map makes it more than one
  fuller: not `KMapRemoveValue`, and not `KMapSetValue` with
  all the rehashes it nests, whatever requests are refused.
-/
theorem utilization_bounded
    (hash : KObjectRef → UInt64)
    (equal : KObjectRef → KObjectRef → Bool)
    (hCons : ConsistentHash hash equal)
    (map : KMap)
    (hReached : Reached hash equal map) :
    map.maxBucketUtilization ≤ map.getCount ∧
      map.getCount ≤
        map.bucketCount * map.maxBucketUtilization ∧
      (∀ key,
        (map.removeValue key).1.maxBucketUtilization ≤
          map.maxBucketUtilization) ∧
      ∀ (allocator : Allocator) (p : Process)
          (key value : Option KObjectRef),
        ¬ p.Refused allocator →
          wp (map.setValue allocator key value)
            (fun r _ =>
              r.1.maxBucketUtilization ≤
                map.maxBucketUtilization + 1)
            (StopsAt allocator False) p := by
  have hKept := hReached.kept hCons
  have hBounds := hKept.count_bounds
  refine
    ⟨hBounds.1, hBounds.2,
      hKept.utilization_removeValue hCons, ?_⟩
  intro allocator p key value hClean
  apply
    wp_mono (hKept.runs_utilization hCons key value p hClean)
  · rintro r q ⟨_, hLess⟩
    exact hLess
  · intro e q hStop
    exact hStop

/- The first object of a map whose keys all collide. -/
theorem utilization_bounded_first :
    ∃ map : KMap,
      map.bucketCount = 1 ∧
        map.maxBucketUtilization = 0 ∧
          wp
            (map.setValue (fun _ => true) (some ⟨1⟩)
              (some ⟨10⟩))
            (fun r _ => r.1.maxBucketUtilization ≤ 1)
            (StopsAt (fun _ => true) False)
            Process.initial := by
  have hAlive : ¬ Process.initial.Refused (fun _ => true) :=
    Process.not_refused_of_granted (fun _ => rfl)
  have hBounded :=
    utilization_bounded (fun _ => 7)
      (fun a b => decide (a = b))
      (ConsistentHash.identity fun _ => 7) _
      (.created (n := 1) hAlive rfl)
  exact
    ⟨_, rfl, rfl,
      hBounded.2.2.2 (fun _ => true) Process.initial (some ⟨1⟩)
        (some ⟨10⟩) hAlive⟩

end KMap

end KDoth
