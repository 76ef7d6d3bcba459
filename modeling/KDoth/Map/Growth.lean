import KDoth.Map.Rehash
import KDoth.Runtime.Succeeds

/-
  A map that could allocate what it asked for has more
  buckets than objects.

  A rehash that fails leaves the map as it is, so the next
  one may find more objects than twice the buckets. Then the
  temporary map grows while it is filled: each of its own
  rehashes leaves it with more buckets than objects, and so
  does the last one.

  Key definitions include:
    * `KMap.Roomy`

  Key theorems include:
    * `KMap.succeeds_allocWithBucketCount`
    * `KMap.succeeds_rehashIfNecessary`
    * `KMap.succeeds_setValue`
-/

------------------------------------------------------------
-- Objects Without Requests
------------------------------------------------------------

namespace KDoth

theorem KAllocation.quiet_useBuffer
    (allocation : KAllocation) :
    Quiet allocation.useBuffer := by
  unfold useBuffer
  split
  · exact Quiet.update (fun _ => rfl)
  · exact Quiet.ret

instance : QuietObject KAllocation where
  quiet_retain _ := Quiet.ofObjectRetain
  quiet_release allocation :=
    Quiet.ofObjectRelease allocation.quiet_useBuffer

instance : QuietObject KMapEntry where
  quiet_retain _ := Quiet.ofObjectRetain
  quiet_release entry :=
    Quiet.ofObjectRelease
      (Quiet.bind (QuietObject.quiet_release entry.key)
        (fun _ => QuietObject.quiet_release entry.value))

instance
    {α : Type}
    [KObject α]
    [QuietObject α] :
    QuietObject (KList α) where
  quiet_retain _ := Quiet.ofObjectRetain
  quiet_release list := by
    apply Quiet.ofObjectRelease
    apply Quiet.bind
    · apply Quiet.bind
      · exact Quiet.each list.items QuietObject.quiet_release
      · intro _
        exact Quiet.ret
    · intro _
      exact Quiet.ofAssert

theorem KArray.quiet_readElements
    {α : Type}
    (array : KArray α) :
    Quiet array.readElements :=
  fun _ => wp_readElements rfl rfl

instance
    {α : Type}
    [KObject α]
    [QuietObject α] :
    QuietObject (KArray α) where
  quiet_retain _ := Quiet.ofObjectRetain
  quiet_release array := by
    have hBuffer : Quiet (KAllocation.getBuffer array.items) := by
      cases array.items with
      | none => exact Quiet.stop
      | some items => exact Quiet.ret
    apply Quiet.ofObjectRelease
    apply Quiet.bind
    · apply Quiet.bind hBuffer
      intro buffer
      split
      · apply Quiet.bind array.quiet_readElements
        intro _
        apply Quiet.bind
          (Quiet.each array.slots QuietObject.quiet_release)
        intro _
        exact Quiet.ret
      · exact Quiet.stop
    · intro r
      exact Quiet.releaseOrNull r.1.items

instance : QuietObject KMap where
  quiet_retain _ := Quiet.ofObjectRetain
  quiet_release map :=
    Quiet.ofObjectRelease (Quiet.releaseOrNull map.buckets)

end KDoth

------------------------------------------------------------
-- Collections
------------------------------------------------------------

namespace KDoth

open Command

variable {α : Type} [KObject α] [SafeObject α]
variable [QuietObject α]
variable {allocator : Allocator}
variable {good : AllocationSite → Prop}

omit [KObject α] [SafeObject α] [QuietObject α] in
theorem KList.succeeds_new :
    Succeeds allocator good (KList.new (α := α) allocator)
      (fun r => r ≠ none) := by
  apply Succeeds.bind_objectNew _ _ rfl
  · exact Succeeds.ret trivial
  · intro address
    exact Succeeds.ret (by simp)

theorem KList.succeeds_addObject
    (list : KList α)
    (x : α) :
    Succeeds allocator good (list.addObject allocator (some x))
      (fun r => r.2 = true) := by
  apply
    Succeeds.bind (A := False) (Runs.ofRequest rfl)
      Succeeds.ofRequest
  intro granted _
  cases granted with
  | false => exact Succeeds.ret (by simp)
  | true =>
      apply Succeeds.bind_retain x
      exact Succeeds.ret (by simp)

/-
  Without refusals an array only fails to grow when its
  capacity wrapped around to zero.
-/
theorem KArray.succeeds_addObject
    (array : KArray α)
    (hBuilt : array.WellBuilt)
    (x : α) :
    Succeeds allocator good (array.addObject allocator (some x))
      (fun r =>
        r.2 = true ∨
          good (.truncate 0) ∧ 2 ^ 28 ≤ array.slots.length) := by
  rcases hBuilt.items with ⟨items, hItems, _⟩
  have hTruncate :
      Succeeds allocator good
        (items.truncate allocator (grownSize array.getLength))
        (fun r =>
          r.2 = true ∨
            good (.truncate 0) ∧
              2 ^ 28 ≤ array.slots.length) := by
    apply
      Succeeds.bind (A := False)
        (KAllocation.runs_useBuffer items)
        (Succeeds.ofQuiet items.quiet_useBuffer)
    intro _ _
    apply
      Succeeds.bind (A := False) (Runs.ofRequest rfl)
        Succeeds.ofRequest
    intro granted _
    split
    · exact Succeeds.ret (by simp)
    · rename_i hKept
      apply Succeeds.ret
      intro hGranted _
      right
      have hZero : grownSize array.getLength = 0 := by
        have hShrink := hKept
        simp only [hGranted.1, Bool.true_and,
          Bool.not_eq_true, Bool.not_eq_false'] at hShrink
        simpa using (Bool.and_eq_true_iff.mp hShrink).1
      rw [hZero] at hGranted
      refine ⟨hGranted.2, ?_⟩
      by_contra hSmall
      have hPos :=
        grownSize_pos array.getLength (by
          unfold getLength
          omega)
      omega
  unfold addObject
  simp only [hItems]
  apply
    Succeeds.bind (A := False)
      (KAllocation.runs_truncate items _) hTruncate
  intro r _
  rcases r with ⟨grown, truncated⟩
  cases truncated with
  | false => exact Succeeds.ret (by simp)
  | true =>
      apply Succeeds.bind_retain x
      exact Succeeds.ret (by simp)

omit [SafeObject α] [QuietObject α] in
theorem KArray.succeeds_new :
    Succeeds allocator good (KArray.new (α := α) allocator)
      (fun r => r ≠ none) := by
  intro p hp
  have hPrefix :
      List.IsPrefix p.requests
        (p.requests ++ [.objectNew .kArray]) :=
    List.prefix_append _ _
  simp only [new, alloc, KAllocation.new, wp_bind,
    wp_objectNew]
  cases hFirst : allocator p.requests.length with
  | false =>
      refine ⟨hPrefix, ?_⟩
      intro hAnswered
      have hYes := (Process.answered_requested hAnswered).1
      rw [hFirst] at hYes
      cases hYes
  | true =>
      cases hSecond : allocator (p.requests.length + 1) with
      | false =>
          -- The cleanup dereferences NULL.
          simp [hSecond, KObject.release, wp_objectRelease,
            deInit, removeAllObjects, KAllocation.getBuffer]
      | true =>
          simp [hSecond]

end KDoth

------------------------------------------------------------
-- Creation
------------------------------------------------------------

namespace KDoth

namespace KMap

variable {allocator : Allocator}
variable {good : AllocationSite → Prop}

/-
  Without refusals the loop of `KMapAllocWithBucketCount`
  only fails when a capacity wrapped around.
-/
theorem succeeds_addBuckets
    (map : KMap)
    (n : Nat)
    {buckets : KArray (KList KMapEntry)}
    (hBuilt : buckets.WellBuilt) :
    Succeeds allocator good (map.addBuckets allocator n buckets)
      (fun r =>
        r ≠ none ∨
          good (.truncate 0) ∧
            2 ^ 28 < buckets.slots.length + n) := by
  induction n generalizing buckets with
  | zero => exact Succeeds.ret (by simp)
  | succ n ih =>
      have hRelease :
          ∀ array : KArray (KList KMapEntry),
            Succeeds allocator good
              (KObject.release
                { map with buckets := some array })
              (fun _ => True) :=
        fun _ => Succeeds.ofQuiet (QuietObject.quiet_release _)
      unfold addBuckets
      apply
        Succeeds.bind (A := False) KList.runs_new
          KList.succeeds_new
      intro bucket hBucket
      cases bucket with
      | none =>
          apply
            Succeeds.bind (A := False)
              (runs_release_buckets map hBuilt)
              (hRelease buckets)
          intro _ _
          exact Succeeds.ret (fun _ h => absurd rfl h)
      | some bucket =>
          have hBucketBuilt :=
            wellBuilt_of_empty (hBucket.2 bucket rfl)
          apply
            Succeeds.bind (A := False)
              (KArray.runs_addObject buckets (some bucket)
                hBuilt hBucketBuilt)
              (KArray.succeeds_addObject buckets hBuilt bucket)
          intro r hr
          rcases r with ⟨grown, added⟩
          apply
            Succeeds.bind_release bucket
              (hBucketBuilt bucket rfl)
          cases added with
          | false =>
              apply
                Succeeds.bind (A := False)
                  (runs_release_buckets map hr.1)
                  (hRelease grown)
              intro _ _
              apply Succeeds.ret
              intro _ hAdded _
              rcases hAdded with hTrue | ⟨hGood, hLong⟩
              · cases hTrue
              · exact Or.inr ⟨hGood, by omega⟩
          | true =>
              rcases hr.2.1 rfl with ⟨x, _, hSlots⟩
              have hLength :
                  grown.slots.length =
                    buckets.slots.length + 1 := by
                have hLonger := congrArg List.length hSlots
                simpa using hLonger
              have hGrown : grown.WellBuilt := hr.1
              apply (ih hGrown).mono
              intro r' hr' _ _
              rcases hr' with hSome | ⟨hGood, hLong⟩
              · exact Or.inl hSome
              · exact Or.inr ⟨hGood, by omega⟩

theorem succeeds_allocWithBucketCount
    (hash : KObjectRef → UInt64)
    (equal : KObjectRef → KObjectRef → Bool)
    {n : Nat}
    (hNonempty : 0 < n) :
    Succeeds allocator good
      (allocWithBucketCount allocator hash equal n)
      (fun r =>
        r ≠ none ∨ good (.truncate 0) ∧ 2 ^ 28 < n) := by
  unfold allocWithBucketCount
  rw [if_neg (by omega)]
  apply Succeeds.bind_objectNew _ _ rfl
  · exact Succeeds.ret trivial
  intro address
  apply
    Succeeds.bind (A := False) KArray.runs_new
      KArray.succeeds_new
  intro buckets hBuckets
  cases buckets with
  | none =>
      apply Succeeds.bind_release
      · intro other hOther
        cases hOther
      · exact Succeeds.ret (fun h => absurd rfl h)
  | some buckets =>
      rcases hBuckets.2 buckets rfl with ⟨hBuilt, hSlots⟩
      apply (succeeds_addBuckets _ n hBuilt).mono
      intro r hr _
      simpa [hSlots] using hr

end KMap

end KDoth

------------------------------------------------------------
-- Storing
------------------------------------------------------------

namespace KDoth

namespace KMap

variable {allocator : Allocator}
variable {good : AllocationSite → Prop}

theorem succeeds_entry_new
    (key value : KObjectRef) :
    Succeeds allocator good (KMapEntry.new allocator key value)
      (fun r => r ≠ none) := by
  apply Succeeds.bind_objectNew _ _ rfl
  · exact Succeeds.ret trivial
  · intro address
    apply Succeeds.bind_retain key
    apply Succeeds.bind_retain value
    exact Succeeds.ret (by simp)

/- Without refusals a key and a value are stored. -/
theorem succeeds_setValueNoRehash
    {map : KMap}
    (hBuilt : map.Built)
    (key value : KObjectRef) :
    Succeeds allocator good
      (map.setValueNoRehash allocator (some key) (some value))
      (fun r => r.2 = true) := by
  rcases hBuilt.getBucket key with ⟨bucket, hBucket⟩
  simp only [setValueNoRehash, hBucket, KMapEntry.search_eq,
    pure_bind]
  cases KMapEntry.find? map.equal key bucket.items with
  | some found =>
      rcases found with ⟨i, entry⟩
      dsimp only
      split
      · exact Succeeds.ret rfl
      · apply Succeeds.bind_release entry.value trivial
        apply Succeeds.bind_retain value
        exact Succeeds.ret (by simp)
  | none =>
      apply
        Succeeds.bind (A := False) (runs_entry_new key value)
          (succeeds_entry_new key value)
      intro newEntry _
      cases newEntry with
      | none =>
          apply Succeeds.ret
          intro h
          exact absurd rfl h
      | some entry =>
          apply
            Succeeds.bind (A := False)
              (KList.runs_addObject bucket (some entry))
              (KList.succeeds_addObject bucket entry)
          intro r _
          rcases r with ⟨grown, added⟩
          apply Succeeds.bind_release entry trivial
          cases added with
          | true => exact Succeeds.ret (by simp)
          | false => exact Succeeds.ret (by simp)

end KMap

end KDoth

------------------------------------------------------------
-- Growth
------------------------------------------------------------

namespace KDoth

namespace KMap

/-
  There are more buckets than objects, or twice the buckets
  are more than an array can hold.
-/
def Roomy
    (good : AllocationSite → Prop)
    (map : KMap) : Prop :=
  map.objectCount < map.bucketCount ∨
    good (.truncate 0) ∧
      2 ^ 28 < map.bucketCount * kMapBucketGrowthFactor

variable {allocator : Allocator} {A : Prop}
variable {good : AllocationSite → Prop}

/- Storing with any rehash that makes room. -/
theorem succeeds_setValueWith
    {rehash : KMap → Call (KMap × Bool)}
    {map : KMap}
    (hShaped : map.Shaped)
    (key value : KObjectRef)
    (hRuns :
      ∀ mid,
        Stored map key value mid → SameTable map mid →
          mid.Shaped →
            Runs allocator A (rehash mid)
              (fun r => Rehashed mid r.1))
    (hRehash :
      ∀ mid,
        Stored map key value mid → SameTable map mid →
          mid.Shaped →
            Succeeds allocator good (rehash mid)
              (fun r => Roomy good r.1)) :
    Succeeds allocator good
      (setValueWith allocator rehash map (some key)
        (some value))
      (fun r => r.2 = true ∧ Roomy good r.1) := by
  apply
    Succeeds.bind (A := A)
      (runs_setValueNoRehash hShaped key value)
      (succeeds_setValueNoRehash hShaped.toBuilt key value)
  intro r hr
  rcases r with ⟨mid, set⟩
  cases set with
  | false => exact Succeeds.ret (by simp)
  | true =>
      have hStored := hr.2.2.1 rfl
      apply
        Succeeds.bind (hRuns mid hStored hr.2.1 hr.1)
          (hRehash mid hStored hr.2.1 hr.1)
      intro r' _
      exact Succeeds.ret (fun hRoomy _ => ⟨rfl, hRoomy⟩)

/- The copying loop keeps the temporary map roomy. -/
theorem succeeds_copyEntries
    {setValue :
      KMap → Option KObjectRef → Option KObjectRef →
        Call (KMap × Bool)}
    {map : KMap}
    (hRuns :
      ∀ done entry rest newMap,
        done ++ entry :: rest = map.entries →
          Copied map done newMap →
            Runs allocator A
              (setValue newMap (some entry.key)
                (some entry.value))
              (SetResult allocator newMap entry.key entry.value))
    (hSet :
      ∀ done entry rest newMap,
        done ++ entry :: rest = map.entries →
          Copied map done newMap →
            Succeeds allocator good
              (setValue newMap (some entry.key)
                (some entry.value))
              (fun r => r.2 = true ∧ Roomy good r.1))
    (done rest : List KMapEntry)
    (hEntries : done ++ rest = map.entries)
    {newMap : KMap}
    (hCopied : Copied map done newMap) :
    Succeeds allocator good (copyEntries setValue rest newMap)
      (fun r =>
        r.2 = true ∧
          (Roomy good newMap → Roomy good r.1)) := by
  induction rest generalizing done newMap with
  | nil => exact Succeeds.ret ⟨rfl, fun h => h⟩
  | cons entry rest ih =>
      apply
        Succeeds.bind (hRuns done entry rest newMap hEntries hCopied)
          (hSet done entry rest newMap hEntries hCopied)
      intro r hr
      rcases r with ⟨next, set⟩
      cases set with
      | false => exact Succeeds.ret (by simp)
      | true =>
          have hNext :
              done ++ [entry] ++ rest = map.entries := by
            simpa using hEntries
          apply
            (ih (done ++ [entry]) hNext (hCopied.step hr)).mono
          intro r' hr' hSet
          exact ⟨hr'.1, fun _ => hr'.2 hSet.2⟩

/- Setting an entry of the map in its copy makes room. -/
theorem succeeds_setEntry
    {depth : Nat}
    {map : KMap}
    (hRehash :
      ∀ {next : KMap},
        next.Shaped →
          next.objectCount < next.bucketCount * 2 ^ depth →
            (A ∨
              ConsistentHash next.hash next.equal ∧
                next.Distinct) →
              Succeeds allocator good
                (rehashIfNecessary allocator depth next)
                (fun r => Roomy good r.1))
    (hShaped : map.Shaped)
    (hDepth :
      map.objectCount < map.bucketCount * 2 ^ (depth + 1))
    (hAssert :
      A ∨ ConsistentHash map.hash map.equal ∧ map.Distinct)
    (done : List KMapEntry)
    (entry : KMapEntry)
    (rest : List KMapEntry)
    (mid : KMap)
    (hSplit : done ++ entry :: rest = map.entries)
    (hCopied : Copied map done mid) :
    Succeeds allocator good
      (setValueWith allocator
        (rehashIfNecessary allocator depth) mid
        (some entry.key) (some entry.value))
      (fun r => r.2 = true ∧ Roomy good r.1) := by
  apply succeeds_setValueWith (A := A) hCopied.shaped
  · intro next hStored hTable hNext
    exact
      runs_rehashIfNecessary depth hNext
        (hCopied.nested hShaped hDepth hSplit hStored hTable)
        (hCopied.consistent hAssert hSplit hStored hTable)
  · intro next hStored hTable hNext
    exact
      hRehash hNext
        (hCopied.nested hShaped hDepth hSplit hStored hTable)
        (hCopied.consistent hAssert hSplit hStored hTable)

/- The buckets of a roomy copy make the map roomy. -/
theorem succeeds_adopt
    {map filled : KMap}
    (hShaped : map.Shaped) :
    Succeeds allocator good
      (do
        kAssert (map.getCount == filled.getCount)
        KObject.release { filled with buckets := map.buckets }
        pure ({ map with buckets := filled.buckets }, true))
      (fun r => Roomy good filled → Roomy good r.1) := by
  apply
    Succeeds.bind (A := True)
      (Runs.ofAssert (fun _ => True.intro))
      (Succeeds.ofQuiet Quiet.ofAssert)
  intro _ hPass
  have hCount : map.objectCount = filled.objectCount := by
    simpa [getCount] using hPass
  have hWellBuilt :
      SafeObject.WellBuilt
        { filled with buckets := map.buckets } :=
    hShaped.wellBuilt
  apply Succeeds.bind_release _ hWellBuilt
  apply Succeeds.ret
  intro _ hRoomy
  rcases hRoomy with hLess | hBig
  · left
    change map.objectCount < filled.bucketCount
    rw [hCount]
    exact hLess
  · exact Or.inr hBig

/-
  Rehashing makes room, by induction on how deep rehashes
  nest.
-/
theorem succeeds_rehashIfNecessary
    (depth : Nat)
    {map : KMap}
    (hShaped : map.Shaped)
    (hDepth :
      map.objectCount < map.bucketCount * 2 ^ depth)
    (hAssert :
      A ∨ ConsistentHash map.hash map.equal ∧ map.Distinct) :
    Succeeds allocator good
      (rehashIfNecessary allocator depth map)
      (fun r => Roomy good r.1) := by
  induction depth generalizing map with
  | zero =>
      have hLess : map.objectCount < map.bucketCount := by
        simpa using hDepth
      unfold rehashIfNecessary
      rw [if_pos ((getLoadFactor_lt_iff hShaped.nonempty).mpr hLess)]
      exact Succeeds.ret (Or.inl hLess)
  | succ depth ih =>
      unfold rehashIfNecessary
      by_cases hLoad : map.getLoadFactor < kMapMaxLoadFactor
      · rw [if_pos hLoad]
        apply Succeeds.ret
        exact
          Or.inl ((getLoadFactor_lt_iff hShaped.nonempty).mp hLoad)
      · rw [if_neg hLoad]
        have hPos :
            0 < map.bucketCount * kMapBucketGrowthFactor :=
          Nat.mul_pos hShaped.nonempty (by decide)
        apply
          Succeeds.bind (A := A)
            (runs_allocWithBucketCount map.hash map.equal _)
            (succeeds_allocWithBucketCount map.hash map.equal
              hPos)
        intro newMap hNew
        cases newMap with
        | none =>
            apply Succeeds.ret
            intro hNone
            rcases hNone with hSome | hBig
            · exact absurd rfl hSome
            · exact Or.inr hBig
        | some newMap =>
            have hFresh := hNew.2 newMap rfl
            have hStart : Roomy good newMap := by
              left
              rw [hFresh.objectCount, hFresh.bucketCount]
              exact hPos
            have hRehash :
                ∀ {next : KMap},
                  next.Shaped →
                    next.objectCount <
                        next.bucketCount * 2 ^ depth →
                      (A ∨
                        ConsistentHash next.hash next.equal ∧
                          next.Distinct) →
                        Runs allocator A
                          (rehashIfNecessary allocator depth
                            next)
                          (fun r => Rehashed next r.1) :=
              runs_rehashIfNecessary depth
            have hRuns :=
              runs_setEntry hRehash hShaped hDepth hAssert
            have hSet :=
              succeeds_setEntry (A := A) ih hShaped hDepth
                hAssert
            simp only [copyBuckets_eq]
            apply
              Succeeds.bind
                (runs_copyEntries hRuns [] map.entries rfl
                  (.start hFresh))
                (succeeds_copyEntries hRuns hSet [] map.entries
                  rfl (.start hFresh))
            intro r hr
            rcases r with ⟨filled, copied⟩
            cases copied with
            | false =>
                apply
                  Succeeds.bind_release filled hr.1.wellBuilt
                exact Succeeds.ret (by simp)
            | true =>
                apply
                  (succeeds_adopt hShaped).mono
                intro r hAdopted hFilled _
                exact hAdopted (hFilled.2 hStart)

/- `KMapSetValue` stores and makes room. -/
theorem succeeds_setValue
    {map : KMap}
    (hShaped : map.Shaped)
    (key value : KObjectRef)
    (hAssert :
      A ∨ ConsistentHash map.hash map.equal ∧ map.Distinct) :
    Succeeds allocator good
      (map.setValue allocator (some key) (some value))
      (fun r => r.2 = true ∧ Roomy good r.1) := by
  apply succeeds_setValueWith (A := A) hShaped
  · intro mid hStored hTable hMid
    exact
      runs_rehashIfNecessary _ hMid (hStored.depth hMid)
        (hStored.consistent hAssert hTable)
  · intro mid hStored hTable hMid
    exact
      succeeds_rehashIfNecessary (A := A) _ hMid
        (hStored.depth hMid) (hStored.consistent hAssert hTable)

end KMap

end KDoth
