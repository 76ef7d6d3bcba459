import KDoth.Map.Refinement
import KDoth.Map.Representation
import KDoth.Runtime.Spending

/-
  What the growth of a map costs. A rehash makes requests for
  every bucket and every entry, but a map that was granted its
  memory only rehashes when it has as many objects as buckets,
  and then doubles the buckets. So over a sequence of calls
  each `KMapSetValue` pays for a fixed number of requests.

  Key definitions include:
    * `KMap.debt`
    * `KMap.Thrifty`
    * `KMap.sets`

  Key theorems include:
    * `KMap.spends_rehashIfNecessary`
    * `KMap.spends_setValue`
    * `KMap.spends_calls`
    * `KMap.session_spends`
-/

------------------------------------------------------------
-- Collections
------------------------------------------------------------

namespace KDoth

variable {α : Type} [KObject α] [QuietObject α]
variable {allocator : Allocator}

omit [KObject α] [QuietObject α] in
theorem KList.spends_new :
    Spends (KList.new (α := α) allocator)
      (fun _ n => n ≤ 1) := by
  apply Spends.seq Spends.ofObjectNew (j := 0) _ (by omega)
  intro address
  cases address with
  | none => exact Spends.ret (by omega)
  | some address => exact Spends.ret (by omega)

theorem KList.spends_addObject
    (list : KList α)
    (object : Option α) :
    Spends (list.addObject allocator object)
      (fun _ n => n ≤ 1) := by
  cases object with
  | none => exact Spends.ret (by omega)
  | some object =>
      apply Spends.seq Spends.ofRequest (j := 0) _ (by omega)
      intro granted
      cases granted with
      | false => exact Spends.ret (by omega)
      | true =>
          apply Spends.skip (QuietObject.quiet_retain object)
          intro _
          exact Spends.ret (by omega)

theorem KArray.spends_new :
    Spends (KArray.new (α := α) allocator)
      (fun _ n => n ≤ 2) := by
  have hAlloc :
      Spends (KArray.alloc (α := α) allocator)
        (fun _ n => n ≤ 2) := by
    apply Spends.seq Spends.ofObjectNew (j := 1) _ (by omega)
    intro address
    cases address with
    | none => exact Spends.ret (by omega)
    | some address =>
        apply Spends.seq (i := 1) (j := 0) _ _ (by omega)
        · apply Spends.seq Spends.ofObjectNew (j := 0) _
            (by omega)
          intro address
          cases address with
          | none => exact Spends.ret (by omega)
          | some address => exact Spends.ret (by omega)
        · intro items
          exact Spends.ret (by omega)
  apply Spends.seq hAlloc (j := 0) _ (by omega)
  intro array
  cases array with
  | none => exact Spends.ret (by omega)
  | some array =>
      dsimp only
      split
      · apply Spends.skip (QuietObject.quiet_release array)
        intro _
        exact Spends.ret (by omega)
      · exact Spends.ret (by omega)

theorem KArray.spends_addObject
    (array : KArray α)
    (object : Option α) :
    Spends (array.addObject allocator object)
      (fun _ n => n ≤ 1) := by
  unfold KArray.addObject
  split
  · exact Spends.ret (by omega)
  · exact Spends.ret (by omega)
  · rename_i object items hItems
    apply Spends.seq (i := 1) (j := 0) _ _ (by omega)
    · apply Spends.skip items.quiet_useBuffer
      intro _
      apply Spends.seq Spends.ofRequest (j := 0) _ (by omega)
      intro granted
      split
      · exact Spends.ret (by omega)
      · exact Spends.ret (by omega)
    · rintro ⟨items, truncated⟩
      cases truncated with
      | false => exact Spends.ret (by omega)
      | true =>
          apply Spends.skip (QuietObject.quiet_retain object)
          intro _
          exact Spends.ret (by omega)

end KDoth

------------------------------------------------------------
-- Creation
------------------------------------------------------------

namespace KDoth

namespace KMap

variable {allocator : Allocator}

/- Two requests for each bucket. -/
theorem spends_addBuckets
    (map : KMap)
    (n : Nat)
    (buckets : KArray (KList KMapEntry)) :
    Spends (map.addBuckets allocator n buckets)
      (fun _ m => m ≤ 2 * n) := by
  induction n generalizing buckets with
  | zero => exact Spends.ret (by omega)
  | succ n ih =>
      have hRelease :
          ∀ array : KArray (KList KMapEntry),
            Spends
              (do
                KObject.release
                  { map with buckets := some array }
                pure (none : Option KMap))
              (fun _ m => m ≤ 2 * n) := by
        intro array
        apply Spends.skip (QuietObject.quiet_release _)
        intro _
        exact Spends.ret (by omega)
      unfold addBuckets
      apply
        Spends.seq KList.spends_new (j := 2 * n + 1) _
          (by omega)
      intro bucket
      cases bucket with
      | none => exact (hRelease buckets).mono (by omega)
      | some bucket =>
          apply
            Spends.seq
              (KArray.spends_addObject buckets (some bucket))
              (j := 2 * n) _ (by omega)
          rintro ⟨grown, added⟩
          apply
            Spends.seq (i := 0) (j := 2 * n)
              (Spends.quiet (QuietObject.quiet_release bucket))
              _ (by omega)
          intro _
          cases added with
          | false => exact hRelease grown
          | true => exact ih grown

theorem spends_allocWithBucketCount
    (hash : KObjectRef → UInt64)
    (equal : KObjectRef → KObjectRef → Bool)
    (n : Nat) :
    Spends (allocWithBucketCount allocator hash equal n)
      (fun _ m => m ≤ 2 * n + 3) := by
  unfold allocWithBucketCount
  split
  · exact Spends.ret (by omega)
  · apply
      Spends.seq Spends.ofObjectNew (j := 2 * n + 2) _
        (by omega)
    intro address
    cases address with
    | none => exact Spends.ret (by omega)
    | some address =>
        apply
          Spends.seq KArray.spends_new (j := 2 * n) _
            (by omega)
        intro buckets
        cases buckets with
        | none =>
            apply Spends.skip (QuietObject.quiet_release _)
            intro _
            exact Spends.ret (by omega)
        | some buckets => exact spends_addBuckets _ n buckets

end KMap

end KDoth

------------------------------------------------------------
-- Storing
------------------------------------------------------------

namespace KDoth

namespace KMap

variable {allocator : Allocator} {A : Prop}

/- Two requests for an entry, and none without a new one. -/
theorem spends_setValueNoRehash
    {map : KMap}
    (hBuilt : map.Built)
    (key value : KObjectRef) :
    Spends
      (map.setValueNoRehash allocator (some key) (some value))
      (fun _ n => n ≤ 2) := by
  rcases hBuilt.getBucket key with ⟨bucket, hBucket⟩
  simp only [setValueNoRehash, hBucket, KMapEntry.search_eq,
    pure_bind]
  cases KMapEntry.find? map.equal key bucket.items with
  | some found =>
      rcases found with ⟨i, entry⟩
      dsimp only
      split
      · exact Spends.ret (by omega)
      · apply
          Spends.skip (QuietObject.quiet_release entry.value)
        intro _
        apply Spends.skip (QuietObject.quiet_retain value)
        intro _
        exact Spends.ret (by omega)
  | none =>
      have hNew :
          Spends (KMapEntry.new allocator key value)
            (fun _ n => n ≤ 1) := by
        apply Spends.seq Spends.ofObjectNew (j := 0) _
          (by omega)
        intro address
        cases address with
        | none => exact Spends.ret (by omega)
        | some address =>
            apply Spends.skip (QuietObject.quiet_retain key)
            intro _
            apply Spends.skip (QuietObject.quiet_retain value)
            intro _
            exact Spends.ret (by omega)
      apply Spends.seq hNew (j := 1) _ (by omega)
      intro newEntry
      apply
        Spends.seq (KList.spends_addObject bucket newEntry)
          (j := 0) _ (by omega)
      rintro ⟨grown, added⟩
      apply Spends.skip (Quiet.releaseOrNull newEntry)
      intro _
      dsimp only
      split
      · exact Spends.ret (by omega)
      · exact Spends.ret (by omega)

/- A map with more buckets than objects is left alone. -/
theorem spends_rehash_of_lt
    {map : KMap}
    (hShaped : map.Shaped)
    (hRoomy : map.objectCount < map.bucketCount)
    (depth : Nat) :
    Spends (rehashIfNecessary allocator depth map)
      (fun r n => r.1 = map ∧ n = 0) := by
  have hLoad :=
    (getLoadFactor_lt_iff hShaped.nonempty).mpr hRoomy
  cases depth with
  | zero =>
      unfold rehashIfNecessary
      rw [if_pos hLoad]
      exact Spends.ret ⟨rfl, rfl⟩
  | succ depth =>
      unfold rehashIfNecessary
      rw [if_pos hLoad]
      exact Spends.ret ⟨rfl, rfl⟩

theorem Stored.objectCount_le
    {map mid : KMap}
    {key value : KObjectRef}
    (hStored : Stored map key value mid) :
    mid.objectCount ≤ map.objectCount + 1 := by
  cases hStored with
  | found _ _ _ _ hCount => omega
  | fresh _ _ hCount => omega

/- Storing in a map with room for one more object. -/
theorem spends_setEntry
    (hGranted : ∀ n, allocator n = true)
    {map : KMap}
    (hShaped : map.Shaped)
    (hRoomy : map.objectCount + 1 < map.bucketCount)
    (depth : Nat)
    (key value : KObjectRef) :
    Spends
      (setValueWith allocator
        (rehashIfNecessary allocator depth) map (some key)
        (some value))
      (fun r n =>
        r.1.bucketCount = map.bucketCount ∧ n ≤ 2) := by
  apply
    Spends.bind
      (Spends.runs (A := False) hGranted
        (runs_setValueNoRehash hShaped key value)
        (spends_setValueNoRehash hShaped.toBuilt key value))
  rintro ⟨mid, set⟩ n ⟨⟨hMid, hTable, hStored, _⟩, hSpent⟩
  have hBuckets := hTable.bucketCount
  cases set with
  | false => exact Spends.ret ⟨hBuckets, hSpent⟩
  | true =>
      have hCount : mid.objectCount ≤ map.objectCount + 1 :=
        (hStored rfl).objectCount_le
      have hSame : mid.bucketCount = map.bucketCount := hBuckets
      have hMidRoomy : mid.objectCount < mid.bucketCount := by
        omega
      apply (spends_rehash_of_lt hMid hMidRoomy depth).bind
      rintro ⟨next, _⟩ m ⟨hSame, hZero⟩
      have hNext : next = mid := hSame
      rw [hNext]
      exact Spends.ret ⟨hBuckets, by omega⟩

end KMap

end KDoth

------------------------------------------------------------
-- Rehashing
------------------------------------------------------------

namespace KDoth

namespace KMap

variable {allocator : Allocator} {A : Prop}

/- Each entry that is copied makes two requests. -/
theorem spends_copyEntries
    {setValue :
      KMap → Option KObjectRef → Option KObjectRef →
        Call (KMap × Bool)}
    {map : KMap}
    (hGranted : ∀ n, allocator n = true)
    (hRuns :
      ∀ done entry rest newMap,
        done ++ entry :: rest = map.entries →
          Copied map done newMap →
            Runs allocator A
              (setValue newMap (some entry.key)
                (some entry.value))
              (SetResult allocator newMap entry.key
                entry.value))
    (hSpends :
      ∀ done entry rest newMap,
        done ++ entry :: rest = map.entries →
          Copied map done newMap →
            Spends
              (setValue newMap (some entry.key)
                (some entry.value))
              (fun r n =>
                r.1.bucketCount = newMap.bucketCount ∧ n ≤ 2))
    (done rest : List KMapEntry)
    (hEntries : done ++ rest = map.entries)
    {newMap : KMap}
    (hCopied : Copied map done newMap) :
    Spends (copyEntries setValue rest newMap)
      (fun r n =>
        r.1.bucketCount = newMap.bucketCount ∧
          n ≤ 2 * rest.length) := by
  induction rest generalizing done newMap with
  | nil => exact Spends.ret ⟨rfl, Nat.zero_le _⟩
  | cons entry rest ih =>
      have hSet :=
        Spends.runs hGranted
          (hRuns done entry rest newMap hEntries hCopied)
          (hSpends done entry rest newMap hEntries hCopied)
      apply hSet.bind
      rintro ⟨next, set⟩ n ⟨hResult, hBuckets, hSpent⟩
      have hSame : next.bucketCount = newMap.bucketCount :=
        hBuckets
      cases set with
      | false =>
          apply Spends.ret
          refine ⟨hSame, ?_⟩
          rw [List.length_cons]
          omega
      | true =>
          have hNext :
              done ++ [entry] ++ rest = map.entries := by
            simpa using hEntries
          apply
            (ih (done ++ [entry]) hNext
              (hCopied.step hResult)).mono
          rintro r m ⟨hLater, hRest⟩
          refine ⟨hLater.trans hSame, ?_⟩
          rw [List.length_cons]
          omega

/-
  A rehash of a map that has as many objects as buckets makes
  at most six requests for each of them and three more. It
  doubles the buckets, if it changes them.
-/
theorem spends_rehashIfNecessary
    (hGranted : ∀ n, allocator n = true)
    (depth : Nat)
    {map : KMap}
    (hShaped : map.Shaped)
    (hFull : map.objectCount = map.bucketCount)
    (hCons : ConsistentHash map.hash map.equal)
    (hDistinct : map.Distinct) :
    Spends (rehashIfNecessary allocator depth map)
      (fun r n =>
        (r.1.bucketCount = map.bucketCount ∨
            r.1.bucketCount = 2 * map.bucketCount) ∧
          n ≤ 6 * map.bucketCount + 3) := by
  have hAssert :
      False ∨
        ConsistentHash map.hash map.equal ∧ map.Distinct :=
    Or.inr ⟨hCons, hDistinct⟩
  have hLoad : ¬ map.getLoadFactor < kMapMaxLoadFactor := by
    rw [getLoadFactor_lt_iff hShaped.nonempty]
    omega
  cases depth with
  | zero =>
      unfold rehashIfNecessary
      rw [if_neg hLoad]
      intro p
      exact True.intro
  | succ depth =>
      unfold rehashIfNecessary
      rw [if_neg hLoad]
      apply
        Spends.bind
          (Spends.runs (A := False) hGranted
            (runs_allocWithBucketCount map.hash map.equal _)
            (spends_allocWithBucketCount map.hash map.equal _))
      rintro newMap n ⟨hNew, hSpent⟩
      have hTwice : kMapBucketGrowthFactor = 2 := rfl
      rw [hTwice] at hSpent
      cases newMap with
      | none => exact Spends.ret ⟨Or.inl rfl, by omega⟩
      | some newMap =>
          simp only [copyBuckets_eq]
          have hFresh := hNew.2 newMap rfl
          have hEnough :
              map.objectCount <
                map.bucketCount * 2 ^ (depth + 1) := by
            have hPow : 2 ≤ 2 ^ (depth + 1) :=
              Nat.le_self_pow (Nat.succ_ne_zero depth) 2
            have hMul :=
              Nat.mul_le_mul_left map.bucketCount hPow
            have hNonempty := hShaped.nonempty
            omega
          have hLength :
              map.entries.length = map.bucketCount :=
            hShaped.count.symm.trans hFull
          have hCopy :=
            spends_copyEntries hGranted
              (runs_setEntry (runs_rehashIfNecessary depth)
                hShaped hEnough hAssert)
              (fun done entry rest mid hSplit hCopied => by
                have hShort := congrArg List.length hSplit
                rw [List.length_append, List.length_cons]
                  at hShort
                have hFew := hCopied.objectCount
                have hMany := hCopied.bucketCount
                exact
                  spends_setEntry hGranted hCopied.shaped
                    (by omega) depth entry.key entry.value)
              [] map.entries rfl (.start hFresh)
          apply hCopy.bind
          rintro ⟨filled, copied⟩ m ⟨hBuckets, hCopies⟩
          have hDouble :
              filled.bucketCount = map.bucketCount * 2 :=
            Eq.trans hBuckets hFresh.bucketCount
          cases copied with
          | false =>
              apply
                Spends.skip (QuietObject.quiet_release filled)
              intro _
              exact Spends.ret ⟨Or.inl rfl, by omega⟩
          | true =>
              apply Spends.skip Quiet.ofAssert
              intro _
              apply Spends.skip (QuietObject.quiet_release _)
              intro _
              apply Spends.ret
              refine ⟨Or.inr ?_, by omega⟩
              show filled.bucketCount = _
              omega

end KMap

end KDoth

------------------------------------------------------------
-- Calls That Pay
------------------------------------------------------------

namespace KDoth

namespace KMap

/- The objects beyond half of the buckets. -/
def debt (map : KMap) : Nat :=
  2 * map.objectCount - map.bucketCount

/- The calls that store. -/
def sets (cs : List MapCall) : Nat :=
  cs.countP fun c =>
    match c with
    | .setValue _ _ => true
    | _ => false

/-
  A map that was created with `n` buckets and had `k` calls
  that store: it has more buckets than objects, not more
  objects than calls, and has only grown for them.
-/
structure Thrifty
    (hash : KObjectRef → UInt64)
    (equal : KObjectRef → KObjectRef → Bool)
    (n k : Nat)
    (map : KMap) : Prop where
  kept : Kept hash equal map
  roomy : map.objectCount < map.bucketCount
  few : map.objectCount ≤ k
  grown : map.bucketCount ≤ max n (2 * k)

variable {hash : KObjectRef → UInt64}
variable {equal : KObjectRef → KObjectRef → Bool}
variable {allocator : Allocator} {n k : Nat} {map : KMap}

/-
  Storing in a map that has room makes two requests, or finds
  it full afterwards and rehashes it.
-/
theorem Thrifty.spends_either
    (hGranted : ∀ i, allocator i = true)
    (hCons : ConsistentHash hash equal)
    (hThrifty : Thrifty hash equal n k map)
    (key value : KObjectRef) :
    Spends (map.setValue allocator (some key) (some value))
      (fun r m =>
        r.1.objectCount ≤ map.objectCount + 1 ∧
          (r.1.bucketCount = map.bucketCount ∧ m ≤ 2 ∨
            r.1.objectCount = map.bucketCount ∧
              (r.1.bucketCount = map.bucketCount ∨
                  r.1.bucketCount = 2 * map.bucketCount) ∧
                m ≤ 6 * map.bucketCount + 5)) := by
  have hShaped := hThrifty.kept.shaped
  have hRoomy := hThrifty.roomy
  have hAssert :
      False ∨
        ConsistentHash map.hash map.equal ∧ map.Distinct :=
    hThrifty.kept.consistent hCons
  apply
    Spends.bind
      (Spends.runs (A := False) hGranted
        (runs_setValueNoRehash hShaped key value)
        (spends_setValueNoRehash hShaped.toBuilt key value))
  rintro ⟨mid, set⟩ m ⟨⟨hMid, hTable, hStored, hSame⟩, hSpent⟩
  cases set with
  | false =>
      have hMap : mid = map := (hSame rfl).1
      subst hMap
      exact
        Spends.ret ⟨Nat.le_succ _, Or.inl ⟨rfl, hSpent⟩⟩
  | true =>
      have hCount : mid.objectCount ≤ map.objectCount + 1 :=
        (hStored rfl).objectCount_le
      have hBuckets : mid.bucketCount = map.bucketCount :=
        hTable.bucketCount
      by_cases hFull : mid.objectCount < mid.bucketCount
      · apply (spends_rehash_of_lt hMid hFull _).bind
        rintro ⟨next, _⟩ m' ⟨hNext, hZero⟩
        have hEq : next = mid := hNext
        subst hEq
        exact
          Spends.ret ⟨hCount, Or.inl ⟨hBuckets, by omega⟩⟩
      · have hMidAssert :=
          (hStored rfl).consistent hAssert hTable
        rcases hMidAssert with hNo | ⟨hMidCons, hDistinct⟩
        · exact hNo.elim
        · have hExact : mid.objectCount = mid.bucketCount := by
            omega
          have hRehash :=
            Spends.runs (A := False) hGranted
              (runs_rehashIfNecessary (map.objectCount + 1)
                hMid ((hStored rfl).depth hMid)
                (Or.inr ⟨hMidCons, hDistinct⟩))
              (spends_rehashIfNecessary hGranted
                (map.objectCount + 1) hMid hExact hMidCons
                hDistinct)
          apply hRehash.bind
          rintro ⟨next, _⟩ m' ⟨hRehashed, hEither, hCost⟩
          have hNext : next.objectCount = mid.objectCount :=
            hRehashed.objectCount
          rw [hBuckets] at hEither hCost
          apply Spends.ret
          refine ⟨?_, Or.inr ⟨?_, hEither, by omega⟩⟩
          · show next.objectCount ≤ _
            omega
          · show next.objectCount = _
            omega

/-
  A call that stores pays for seventeen requests: for its own
  two, and for a share of the next rehash.
-/
theorem Thrifty.spends_setValue
    (hGranted : ∀ i, allocator i = true)
    (hCons : ConsistentHash hash equal)
    (hThrifty : Thrifty hash equal n k map)
    (hNarrow : n ≤ 2 ^ 27)
    (hShort : k < 2 ^ 26)
    (key value : KObjectRef) :
    Spends (map.setValue allocator (some key) (some value))
      (fun r m =>
        Thrifty hash equal n (k + 1) r.1 ∧
          m + 6 * r.1.debt ≤ 6 * map.debt + 17) := by
  have hKept := hThrifty.kept
  have hAssert :
      False ∨
        ConsistentHash map.hash map.equal ∧ map.Distinct :=
    hKept.consistent hCons
  have hAll :=
    Spends.runs (A := False) hGranted
      (hKept.runs_setValue hCons (some key) (some value))
      (Spends.succeeds hGranted
        (succeeds_setValue hKept.shaped key value hAssert)
        (hThrifty.spends_either hGranted hCons key value))
  apply hAll.mono
  rintro r m ⟨hNext, ⟨_, hRoom⟩, hCount, hEither⟩
  have hRoomy := hThrifty.roomy
  have hFew := hThrifty.few
  have hGrown := hThrifty.grown
  -- The buckets are too few for a capacity to wrap around.
  have hFits : r.1.objectCount < r.1.bucketCount := by
    rcases hRoom with hLess | ⟨_, hBig⟩
    · exact hLess
    · have hTwice : kMapBucketGrowthFactor = 2 := rfl
      have hNarrower : max n (2 * k) ≤ 2 ^ 27 :=
        max_le hNarrow (by omega)
      rw [hTwice] at hBig
      omega
  refine ⟨⟨hNext, hFits, by omega, by omega⟩, ?_⟩
  unfold debt
  omega

/- Removing gives up debt, if it changes any. -/
theorem Thrifty.removeValue
    (hCons : ConsistentHash hash equal)
    (hThrifty : Thrifty hash equal n k map)
    (key : KObjectRef) :
    Thrifty hash equal n k (map.removeValue (some key)).1 ∧
      (map.removeValue (some key)).1.debt ≤ map.debt := by
  have hKept := hThrifty.kept.removeValue hCons (some key)
  rcases removeValue_spec hThrifty.kept.shaped key with
    ⟨old, rest, hPresent, _, hShaped, hTable, hRest⟩ |
      ⟨_, hSame⟩
  · have hBuckets := hTable.bucketCount
    have hShort := hRest.length_eq
    have hLong := hPresent.contents.length_eq
    rw [length_contents, ← hShaped.count] at hShort
    rw [length_contents, ← hThrifty.kept.shaped.count,
      List.length_cons] at hLong
    have hRoomy := hThrifty.roomy
    have hFew := hThrifty.few
    have hGrown := hThrifty.grown
    refine ⟨⟨hKept, by omega, by omega, by omega⟩, ?_⟩
    unfold debt
    omega
  · rw [hSame]
    exact ⟨hThrifty, Nat.le_refl _⟩

/- What every call keeps, and what it spends. -/
theorem Thrifty.spends_call
    (hGranted : ∀ i, allocator i = true)
    (hCons : ConsistentHash hash equal)
    (hThrifty : Thrifty hash equal n k map)
    (hNarrow : n ≤ 2 ^ 27)
    (c : MapCall)
    (hShort : k + sets [c] ≤ 2 ^ 26) :
    Spends (map.call allocator c)
      (fun r m =>
        Thrifty hash equal n (k + sets [c]) r.1 ∧
          m + 6 * r.1.debt ≤ 6 * map.debt + 17 * sets [c]) := by
  cases c with
  | setValue key value =>
      have hLess : k < 2 ^ 26 := hShort
      apply
        (hThrifty.spends_setValue hGranted hCons hNarrow hLess
          key value).bind
      rintro ⟨next, set⟩ m hPaid
      exact Spends.ret hPaid
  | getValue key =>
      apply Spends.ret
      refine ⟨hThrifty, ?_⟩
      show 0 + 6 * map.debt ≤ 6 * map.debt + 17 * 0
      omega
  | removeValue key =>
      rcases hThrifty.removeValue hCons key with
        ⟨hNext, hLess⟩
      apply Spends.ret
      refine ⟨hNext, ?_⟩
      show 0 + 6 * (map.removeValue (some key)).1.debt ≤
        6 * map.debt + 17 * 0
      omega
  | getCount =>
      apply Spends.ret
      refine ⟨hThrifty, ?_⟩
      show 0 + 6 * map.debt ≤ 6 * map.debt + 17 * 0
      omega

/- A sequence of calls spends what its calls pay. -/
theorem Thrifty.spends_calls
    (hGranted : ∀ i, allocator i = true)
    (hCons : ConsistentHash hash equal)
    (hThrifty : Thrifty hash equal n k map)
    (hNarrow : n ≤ 2 ^ 27)
    (cs : List MapCall)
    (hShort : k + sets cs ≤ 2 ^ 26) :
    Spends (map.calls allocator cs)
      (fun r m =>
        Thrifty hash equal n (k + sets cs) r.1 ∧
          m + 6 * r.1.debt ≤ 6 * map.debt + 17 * sets cs) := by
  induction cs generalizing map k with
  | nil =>
      apply Spends.ret
      refine ⟨hThrifty, ?_⟩
      show 0 + 6 * map.debt ≤ 6 * map.debt + 17 * 0
      omega
  | cons c cs ih =>
      have hSets : sets (c :: cs) = sets [c] + sets cs := by
        change List.countP _ ([c] ++ cs) = _
        exact List.countP_append
      have hFirst :=
        hThrifty.spends_call hGranted hCons hNarrow c
          (by omega)
      apply hFirst.bind
      rintro ⟨next, result⟩ m ⟨hNext, hPaid⟩
      have hRest := ih hNext (by omega)
      apply hRest.bind
      rintro ⟨last, results⟩ m' ⟨hLast, hLater⟩
      apply Spends.ret
      rw [hSets]
      dsimp only at hPaid hLater ⊢
      rw [Nat.add_assoc] at hLast
      exact ⟨hLast, by omega⟩

end KMap

end KDoth

------------------------------------------------------------
-- Main Result
------------------------------------------------------------

namespace KDoth

namespace KMap

open Command

variable {hash : KObjectRef → UInt64}
variable {equal : KObjectRef → KObjectRef → Bool}
variable {allocator : Allocator} {n : Nat}

/- A map that was just created has no debt. -/
theorem Fresh.thrifty
    {map : KMap}
    (hNonempty : 1 ≤ n)
    (hFresh : Fresh hash equal n map) :
    Thrifty hash equal n 0 map ∧ map.debt = 0 := by
  have hCount := hFresh.objectCount
  have hBuckets := hFresh.bucketCount
  refine
    ⟨⟨hFresh.kept, by omega, by omega, by omega⟩, ?_⟩
  unfold debt
  omega

/- Creating a map and calling it. -/
theorem spends_session
    (hGranted : ∀ i, allocator i = true)
    (hCons : ConsistentHash hash equal)
    (hNonempty : 1 ≤ n)
    (hNarrow : n ≤ 2 ^ 27)
    (cs : List MapCall)
    (hShort : sets cs ≤ 2 ^ 26) :
    Spends (session allocator hash equal n cs)
      (fun r m =>
        (∀ map results, r = some (map, results) →
          map.bucketCount ≤ max n (2 * sets cs)) ∧
          m ≤ 2 * n + 3 + 17 * sets cs) := by
  apply
    Spends.bind
      (Spends.runs (A := False) hGranted
        (runs_allocWithBucketCount hash equal n)
        (spends_allocWithBucketCount hash equal n))
  rintro created m ⟨hNew, hSpent⟩
  cases created with
  | none => exact Spends.ret ⟨by nofun, by omega⟩
  | some map =>
      rcases (hNew.2 map rfl).thrifty hNonempty with
        ⟨hThrifty, hDebt⟩
      have hCalls :=
        hThrifty.spends_calls hGranted hCons hNarrow cs
          (by omega)
      apply hCalls.bind
      rintro ⟨last, results⟩ m' ⟨hLast, hPaid⟩
      apply Spends.ret
      constructor
      · rintro _ _ ⟨⟩
        have hGrown := hLast.grown
        rw [Nat.zero_add] at hGrown
        exact hGrown
      · omega

/-
  Growing is cheap over a whole sequence of calls. A map is
  created with some buckets and called, with every request
  granted. All its requests for memory, those of the rehashes
  included, are at most seventeen for each call that stores
  and two for each bucket it was created with. It never has
  more than these buckets or two for each such call.
-/
theorem session_spends
    (hash : KObjectRef → UInt64)
    (equal : KObjectRef → KObjectRef → Bool)
    (hCons : ConsistentHash hash equal)
    (allocator : Allocator)
    (hGranted : ∀ i, allocator i = true)
    (n : Nat)
    (hNonempty : 1 ≤ n)
    (hNarrow : n ≤ 2 ^ 27)
    (cs : List MapCall)
    (hShort : sets cs ≤ 2 ^ 26)
    (p : Process) :
    Returns (session allocator hash equal n cs) p
      (fun r q =>
        ∃ map results,
          r = some (map, results) ∧
            map.bucketCount ≤ max n (2 * sets cs) ∧
              q.requests.length ≤
                p.requests.length + (2 * n + 3) +
                  17 * sets cs) := by
  have hBounded : n < 2 ^ 28 := by omega
  have hClean : ¬ p.Refused allocator :=
    Process.not_refused_of_granted hGranted
  have hRuns :=
    runs_session (A := False) hGranted hCons hNonempty
      hBounded cs p hClean
  have hSpends :=
    spends_session hGranted hCons hNonempty hNarrow cs hShort p
  apply returns_iff_wp.mpr
  apply wp_mono (wp_and hRuns hSpends)
  · rintro r q ⟨⟨_, map, hSome, _⟩, m, hLength, hGrown, hFew⟩
    refine ⟨map, _, hSome, hGrown map _ hSome, ?_⟩
    omega
  · rintro e q ⟨hStop, _⟩
    exact StopsAt.not_of_granted hGranted hStop

/- The only bucket is full at once, and two more are made. -/
theorem session_spends_doubling :
    Returns
      (session (fun _ => true) (fun _ => 7)
        (fun a b => decide (a = b)) 1
        [.setValue ⟨1⟩ ⟨10⟩, .setValue ⟨2⟩ ⟨20⟩,
          .removeValue ⟨1⟩])
      Process.initial
      (fun r q =>
        ∃ map results,
          r = some (map, results) ∧
            map.bucketCount ≤ 4 ∧ q.requests.length ≤ 39) :=
  session_spends _ _ (ConsistentHash.identity fun _ => 7)
    (fun _ => true) (fun _ => rfl) 1 (by decide) (by decide)
    [.setValue ⟨1⟩ ⟨10⟩, .setValue ⟨2⟩ ⟨20⟩, .removeValue ⟨1⟩]
    (by decide) Process.initial

end KMap

end KDoth
