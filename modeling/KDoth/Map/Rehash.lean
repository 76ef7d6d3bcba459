import KDoth.Map.Update
import Mathlib.Data.Rat.Cast.Order
import Mathlib.Algebra.Order.Field.Basic

/-
  Creating maps, growing them and storing with growth.

  A rehash that returns keeps the pairs of the map, whether
  or not it could grow it. The bound on the nesting of
  rehashes is never used up: a temporary map has twice the
  buckets and is never given more entries than the map it
  replaces.

  Key definitions include:
    * `ConsistentHash`
    * `KMap.Distinct`
    * `KMap.Rehashed`
    * `KMap.Copied`

  Key theorems include:
    * `KMap.runs_allocWithBucketCount`
    * `KMap.runs_rehashIfNecessary`
    * `KMap.runs_setValue`
-/

------------------------------------------------------------
-- Consistent Hash Functions
------------------------------------------------------------

namespace KDoth

/-
  `equal` is an equivalence and equal keys hash alike, as a
  hash table asks of its functions.
-/
structure ConsistentHash
    (hash : KObjectRef → UInt64)
    (equal : KObjectRef → KObjectRef → Bool) : Prop where
  refl : ∀ a, equal a a = true
  symm : ∀ a b, equal a b = true → equal b a = true
  trans :
    ∀ a b c,
      equal a b = true → equal b c = true →
        equal a c = true
  hash : ∀ a b, equal a b = true → hash a = hash b

namespace ConsistentHash

variable {hash : KObjectRef → UInt64}
variable {equal : KObjectRef → KObjectRef → Bool}

/- The equivalence of keys. -/
def setoid
    (hCons : ConsistentHash hash equal) :
    Setoid KObjectRef where
  r a b := equal a b = true
  iseqv :=
    { refl := hCons.refl
      symm := fun h => hCons.symm _ _ h
      trans := fun h h' => hCons.trans _ _ _ h h' }

/- Comparing references is consistent with every hash. -/
theorem identity (hash : KObjectRef → UInt64) :
    ConsistentHash hash (fun a b => decide (a = b)) := by
  constructor
  · intro a
    exact decide_eq_true rfl
  · intro a b hab
    simp only [decide_eq_true_eq] at hab ⊢
    exact hab.symm
  · intro a b c hab hbc
    simp only [decide_eq_true_eq] at hab hbc ⊢
    exact hab.trans hbc
  · intro a b hab
    simp only [decide_eq_true_eq] at hab
    rw [hab]

end ConsistentHash

namespace KMap

/- No two pairs have equal keys. -/
def Distinct (map : KMap) : Prop :=
  map.contents.Pairwise
    (fun x y => map.equal x.1 y.1 = false)

/-
  With consistent functions a key that is absent from its
  bucket is equal to no key of the map.
-/
theorem Absent.forall_contents
    {map : KMap}
    (hCons : ConsistentHash map.hash map.equal)
    {key : KObjectRef}
    (hAbsent : map.Absent key) :
    ∀ x ∈ map.contents, map.equal key x.1 = false := by
  intro x hx
  by_contra hNot
  have hEqual : map.equal key x.1 = true := by
    simpa using hNot
  have hIndex : map.bucketIndex x.1 = map.bucketIndex key := by
    unfold bucketIndex
    rw [hCons.hash key x.1 hEqual]
  rw [hAbsent x hx hIndex] at hEqual
  cases hEqual

/- Distinctness does not depend on the order of the pairs. -/
theorem pairwise_perm
    {hash : KObjectRef → UInt64}
    {equal : KObjectRef → KObjectRef → Bool}
    (hCons : ConsistentHash hash equal)
    {l l' : List (KObjectRef × KObjectRef)}
    (hPerm : l.Perm l') :
    l.Pairwise (fun x y => equal x.1 y.1 = false) ↔
      l'.Pairwise (fun x y => equal x.1 y.1 = false) := by
  apply hPerm.pairwise_iff
  intro x y hxy
  by_contra hNot
  have hEqual : equal y.1 x.1 = true := by
    simpa using hNot
  rw [hCons.symm _ _ hEqual] at hxy
  cases hxy

/- Storing keeps the keys distinct. -/
theorem Stored.distinct
    {map map' : KMap}
    {key value : KObjectRef}
    (hCons : ConsistentHash map.hash map.equal)
    (hDistinct : map.Distinct)
    (hSame : map'.equal = map.equal)
    (hStored : Stored map key value map') :
    map'.Distinct := by
  unfold Distinct at hDistinct ⊢
  rw [hSame]
  cases hStored with
  | found old rest hOld hNew _ =>
      rw [pairwise_perm hCons hOld.contents,
        List.pairwise_cons] at hDistinct
      rw [pairwise_perm hCons hNew, List.pairwise_cons]
      exact hDistinct
  | fresh hFresh hNew _ =>
      rw [pairwise_perm hCons hNew, List.pairwise_cons]
      exact ⟨hFresh.forall_contents hCons, hDistinct⟩

end KMap

end KDoth

------------------------------------------------------------
-- Creation
------------------------------------------------------------

namespace KDoth

namespace KMap

variable {allocator : Allocator} {A : Prop}

/- A map is released safely with any buckets. -/
theorem runs_release_buckets
    (map : KMap)
    {array : KArray (KList KMapEntry)}
    (hArray : array.WellBuilt) :
    Runs allocator A
      (KObject.release { map with buckets := some array })
      (fun _ => True) := by
  apply SafeObject.runs_release
  intro other hOther
  cases hOther
  exact hArray

/- An empty bucket can be added and given up. -/
theorem wellBuilt_of_empty
    {bucket : KList KMapEntry}
    (hItems : bucket.items = []) :
    ∀ x, some bucket = some x → SafeObject.WellBuilt x := by
  intro x hx
  cases hx
  intro entry hEntry
  rw [hItems] at hEntry
  cases hEntry

/- A capacity that wrapped around is a large one. -/
theorem long_of_wrapped
    {buckets : KArray (KList KMapEntry)}
    (hWrap : KArray.grownSize buckets.getLength = 0) :
    2 ^ 28 ≤ buckets.slots.length := by
  by_contra hSmall
  have hShort : buckets.getLength < 2 ^ 28 := by
    unfold KArray.getLength
    omega
  have hPos := KArray.grownSize_pos buckets.getLength hShort
  omega

/- The loop of `KMapAllocWithBucketCount`. -/
theorem runs_addBuckets
    (map : KMap)
    (n : Nat)
    {buckets : KArray (KList KMapEntry)}
    (hBuilt : buckets.WellBuilt)
    (hEmpty : ∀ bucket ∈ buckets.slots, bucket.items = []) :
    Runs allocator A (map.addBuckets allocator n buckets)
      (fun r =>
        (r = none →
          (∃ n, allocator n = false) ∨
            2 ^ 28 < buckets.slots.length + n) ∧
          ∀ map', r = some map' →
            ∃ grown : KArray (KList KMapEntry),
              map' = { map with buckets := some grown } ∧
                grown.WellBuilt ∧
                grown.slots.length =
                  buckets.slots.length + n ∧
                ∀ bucket ∈ grown.slots, bucket.items = []) := by
  induction n generalizing buckets with
  | zero =>
      refine Runs.ret ⟨by simp, ?_⟩
      intro map' hEq
      cases hEq
      exact ⟨buckets, rfl, hBuilt, rfl, hEmpty⟩
  | succ n ih =>
      unfold addBuckets
      refine Runs.bind KList.runs_new ?_
      intro bucket hBucket
      cases bucket with
      | none =>
          refine Runs.bind (runs_release_buckets map hBuilt) ?_
          intro _ _
          exact
            Runs.ret ⟨fun _ => Or.inl (hBucket.1 rfl), by simp⟩
      | some bucket =>
          have hItems : bucket.items = [] :=
            hBucket.2 bucket rfl
          have hBucketBuilt := wellBuilt_of_empty hItems
          refine
            Runs.bind
              (KArray.runs_addObject buckets (some bucket)
                hBuilt hBucketBuilt) ?_
          intro r hr
          rcases r with ⟨grown, added⟩
          apply
            Runs.bind_release bucket (hBucketBuilt bucket rfl)
          cases added with
          | false =>
              refine Runs.bind (runs_release_buckets map hr.1) ?_
              intro _ _
              refine Runs.ret ⟨?_, by simp⟩
              intro _
              rcases (hr.2.2 rfl).2 with hNull | hNo | hWrap
              · cases hNull
              · exact Or.inl hNo
              · have hLong := long_of_wrapped hWrap
                exact Or.inr (by omega)
          | true =>
              rcases hr.2.1 rfl with ⟨x, hSome, hSlots⟩
              cases hSome
              dsimp only at hSlots
              have hLength :
                  grown.slots.length =
                    buckets.slots.length + 1 := by
                simp [hSlots]
              have hGrown : grown.WellBuilt := hr.1
              have hStep :=
                ih hGrown (by
                  intro other hOther
                  rw [hSlots] at hOther
                  rcases List.mem_append.mp hOther with
                    hOld | hNew
                  · exact hEmpty other hOld
                  · rw [List.mem_singleton.mp hNew]
                    exact hItems)
              refine Runs.mono hStep ?_
              intro r' hr'
              refine ⟨?_, ?_⟩
              · intro hNone
                rcases hr'.1 hNone with hNo | hBig
                · exact Or.inl hNo
                · exact Or.inr (by omega)
              · intro map' hSome
                rcases hr'.2 map' hSome with
                  ⟨array, hMap, hArray, hLen, hAll⟩
                exact ⟨array, hMap, hArray, by omega, hAll⟩

/- The map that creation returns. -/
structure Fresh
    (hash : KObjectRef → UInt64)
    (equal : KObjectRef → KObjectRef → Bool)
    (bucketCount : Nat)
    (map : KMap) : Prop where
  shaped : map.Shaped
  hash : map.hash = hash
  equal : map.equal = equal
  bucketCount : map.bucketCount = bucketCount
  contents : map.contents = []
  objectCount : map.objectCount = 0

/- A map whose buckets are all empty. -/
theorem Fresh.of_empty
    (address : Nat)
    (hash : KObjectRef → UInt64)
    (equal : KObjectRef → KObjectRef → Bool)
    {n : Nat}
    (hNonzero : n ≠ 0)
    {grown : KArray (KList KMapEntry)}
    (hGrown : grown.WellBuilt)
    (hLength : grown.slots.length = n)
    (hAll : ∀ bucket ∈ grown.slots, bucket.items = []) :
    Fresh hash equal n
      { address := address
        hash := hash
        equal := equal
        buckets := some grown
        objectCount := 0 } := by
  have hEntries : grown.slots.flatMap KList.items = [] :=
    List.flatMap_eq_nil_iff.mpr hAll
  refine
    ⟨⟨⟨⟨grown, rfl, hGrown⟩, ?_, ?_⟩, ?_⟩, rfl, rfl, hLength,
      ?_, rfl⟩
  · change 0 < grown.slots.length
    omega
  · intro i bucket hBucket entry hEntry
    have hMem := List.mem_of_getElem? hBucket
    rw [hAll bucket hMem] at hEntry
    cases hEntry
  · change 0 = (grown.slots.flatMap KList.items).length
    rw [hEntries]
    rfl
  · change
      (grown.slots.flatMap KList.items).map KMapEntry.pair = []
    rw [hEntries]
    rfl

theorem runs_allocWithBucketCount
    (hash : KObjectRef → UInt64)
    (equal : KObjectRef → KObjectRef → Bool)
    (n : Nat) :
    Runs allocator A
      (allocWithBucketCount allocator hash equal n)
      (fun r =>
        (r = none →
          n = 0 ∨ (∃ n, allocator n = false) ∨ 2 ^ 28 < n) ∧
          ∀ map, r = some map → Fresh hash equal n map) := by
  unfold allocWithBucketCount
  by_cases hZero : n = 0
  · rw [if_pos hZero]
    exact Runs.ret ⟨fun _ => Or.inl hZero, by simp⟩
  · rw [if_neg hZero]
    refine Runs.bind (Runs.ofObjectNew rfl) ?_
    intro address hAddress
    cases address with
    | none =>
        exact
          Runs.ret
            ⟨fun _ => Or.inr (Or.inl (hAddress rfl)), by simp⟩
    | some address =>
        refine Runs.bind KArray.runs_new ?_
        intro buckets hBuckets
        cases buckets with
        | none =>
            apply Runs.bind_release
            · intro other hOther
              cases hOther
            · exact
                Runs.ret
                  ⟨fun _ => Or.inr (Or.inl (hBuckets.1 rfl)),
                    by simp⟩
        | some buckets =>
            rcases hBuckets.2 buckets rfl with
              ⟨hBuilt, hSlots⟩
            refine
              Runs.mono
                (runs_addBuckets _ n hBuilt (by simp [hSlots]))
                ?_
            intro r hr
            refine ⟨?_, ?_⟩
            · intro hNone
              rcases hr.1 hNone with hNo | hBig
              · exact Or.inr (Or.inl hNo)
              · refine Or.inr (Or.inr ?_)
                simpa [hSlots] using hBig
            · intro map hSome
              rcases hr.2 map hSome with
                ⟨grown, hMap, hGrown, hLength, hAll⟩
              subst hMap
              have hCount : grown.slots.length = n := by
                simpa [hSlots] using hLength
              exact
                Fresh.of_empty address hash equal hZero hGrown
                  hCount hAll

end KMap

end KDoth

------------------------------------------------------------
-- Growth
------------------------------------------------------------

namespace KDoth

namespace KMap

variable {allocator : Allocator} {A : Prop}

/- The load test compares objects with buckets. -/
theorem getLoadFactor_lt_iff
    {map : KMap}
    (hNonempty : 0 < map.bucketCount) :
    map.getLoadFactor < kMapMaxLoadFactor ↔
      map.objectCount < map.bucketCount := by
  unfold getLoadFactor kMapMaxLoadFactor
  have hPos : (0 : ℚ) < (map.bucketCount : ℚ) := by
    exact_mod_cast hNonempty
  rw [div_lt_one hPos]
  exact Nat.cast_lt

/- The pairs are kept and buckets are only added. -/
structure Rehashed (map map' : KMap) : Prop where
  shaped : map'.Shaped
  hash : map'.hash = map.hash
  equal : map'.equal = map.equal
  contents : map'.contents.Perm map.contents
  objectCount : map'.objectCount = map.objectCount
  bucketCount : map.bucketCount ≤ map'.bucketCount

theorem Rehashed.refl
    {map : KMap}
    (hShaped : map.Shaped) :
    Rehashed map map :=
  ⟨hShaped, rfl, rfl, .refl _, rfl, Nat.le_refl _⟩

/-
  What `KMapSetValue` does: store the pair and then rehash,
  or nothing.
-/
structure SetResult
    (allocator : Allocator)
    (map : KMap)
    (key value : KObjectRef)
    (r : KMap × Bool) : Prop where
  stored :
    r.2 = true →
      ∃ mid,
        Stored map key value mid ∧ SameTable map mid ∧
          mid.Shaped ∧ Rehashed mid r.1
  refused :
    r.2 = false → r.1 = map ∧ ∃ n, allocator n = false

/- Storing with any rehash that behaves. -/
theorem runs_setValueWith
    {rehash : KMap → Call (KMap × Bool)}
    {map : KMap}
    (hShaped : map.Shaped)
    (key value : KObjectRef)
    (hRehash :
      ∀ mid,
        Stored map key value mid → SameTable map mid →
          mid.Shaped →
            Runs allocator A (rehash mid)
              (fun r => Rehashed mid r.1)) :
    Runs allocator A
      (setValueWith allocator rehash map (some key)
        (some value))
      (SetResult allocator map key value) := by
  refine
    Runs.bind (runs_setValueNoRehash hShaped key value) ?_
  intro r hr
  rcases r with ⟨mid, set⟩
  cases set with
  | false => exact Runs.ret ⟨by simp, hr.2.2.2⟩
  | true =>
      refine
        Runs.bind
          (hRehash mid (hr.2.2.1 rfl) hr.2.1 hr.1) ?_
      intro r' hr'
      exact
        Runs.ret
          ⟨fun _ => ⟨mid, hr.2.2.1 rfl, hr.2.1, hr.1, hr'⟩,
            by simp⟩

/- Storing keeps the assertions. -/
theorem Stored.consistent
    {map mid : KMap}
    {key value : KObjectRef}
    (hStored : Stored map key value mid)
    (hAssert :
      A ∨ ConsistentHash map.hash map.equal ∧ map.Distinct)
    (hTable : SameTable map mid) :
    A ∨ ConsistentHash mid.hash mid.equal ∧ mid.Distinct := by
  rcases hAssert with hA | ⟨hCons, hDistinct⟩
  · exact Or.inl hA
  · right
    constructor
    · rw [hTable.hash, hTable.equal]
      exact hCons
    · exact hStored.distinct hCons hDistinct hTable.equal

/-
  A temporary map filled with some entries of `map`. It never
  holds more entries than were set, and holds their pairs if
  it holds as many; with consistent functions and distinct
  keys it does.
-/
structure Copied
    (map : KMap)
    (done : List KMapEntry)
    (newMap : KMap) : Prop where
  shaped : newMap.Shaped
  hash : newMap.hash = map.hash
  equal : newMap.equal = map.equal
  bucketCount : map.bucketCount * 2 ≤ newMap.bucketCount
  objectCount : newMap.objectCount ≤ done.length
  contents :
    newMap.objectCount = done.length →
      newMap.contents.Perm (done.map KMapEntry.pair)
  complete :
    ConsistentHash map.hash map.equal →
      (done.map KMapEntry.pair).Pairwise
        (fun x y => map.equal x.1 y.1 = false) →
        newMap.objectCount = done.length

/- The keys of a faithful copy are distinct. -/
theorem Copied.distinct
    {map newMap : KMap}
    {done : List KMapEntry}
    (hCopied : Copied map done newMap)
    (hCons : ConsistentHash map.hash map.equal)
    (hDone :
      (done.map KMapEntry.pair).Pairwise
        (fun x y => map.equal x.1 y.1 = false)) :
    newMap.Distinct := by
  have hPerm :=
    hCopied.contents (hCopied.complete hCons hDone)
  unfold Distinct
  rw [hCopied.equal, pairwise_perm hCons hPerm]
  exact hDone

/- A new map is a copy of no entry. -/
theorem Copied.start
    {map newMap : KMap}
    (hFresh :
      Fresh map.hash map.equal
        (map.bucketCount * kMapBucketGrowthFactor) newMap) :
    Copied map [] newMap := by
  refine
    ⟨hFresh.shaped, hFresh.hash, hFresh.equal, ?_, ?_, ?_, ?_⟩
  · exact Nat.le_of_eq hFresh.bucketCount.symm
  · rw [hFresh.objectCount]
    exact Nat.zero_le _
  · intro _
    rw [hFresh.contents]
    exact .refl _
  · intro _ _
    exact hFresh.objectCount

/-
  The rehash after one more entry may nest one less deep: the
  copy has twice the buckets, and no more entries.
-/
theorem Copied.nested
    {map mid next : KMap}
    {done rest : List KMapEntry}
    {entry : KMapEntry}
    {depth : Nat}
    (hCopied : Copied map done mid)
    (hShaped : map.Shaped)
    (hDepth :
      map.objectCount < map.bucketCount * 2 ^ (depth + 1))
    (hSplit : done ++ entry :: rest = map.entries)
    (hStored : Stored mid entry.key entry.value next)
    (hTable : SameTable mid next) :
    next.objectCount < next.bucketCount * 2 ^ depth := by
  have hLength := congrArg List.length hSplit
  rw [List.length_append, List.length_cons] at hLength
  have hCount := hShaped.count
  have hMid := hCopied.objectCount
  have hTwice := hCopied.bucketCount
  have hNext : next.objectCount ≤ mid.objectCount + 1 := by
    cases hStored with
    | found _ _ _ _ h => omega
    | fresh _ _ h => omega
  have hPow :
      map.bucketCount * 2 ^ (depth + 1) ≤
        next.bucketCount * 2 ^ depth := by
    rw [hTable.bucketCount, pow_succ', ← Nat.mul_assoc]
    exact Nat.mul_le_mul_right _ hTwice
  omega

/- The assertions hold for the copy if they do for the map. -/
theorem Copied.consistent
    {map mid next : KMap}
    {done rest : List KMapEntry}
    {entry : KMapEntry}
    (hCopied : Copied map done mid)
    (hAssert :
      A ∨ ConsistentHash map.hash map.equal ∧ map.Distinct)
    (hSplit : done ++ entry :: rest = map.entries)
    (hStored : Stored mid entry.key entry.value next)
    (hTable : SameTable mid next) :
    A ∨ ConsistentHash next.hash next.equal ∧ next.Distinct := by
  rcases hAssert with hA | ⟨hCons, hDistinct⟩
  · exact Or.inl hA
  · have hMid : ConsistentHash mid.hash mid.equal := by
      rw [hCopied.hash, hCopied.equal]
      exact hCons
    have hAll :
        (map.entries.map KMapEntry.pair).Pairwise
          (fun x y => map.equal x.1 y.1 = false) :=
      hDistinct
    rw [← hSplit, List.map_append, List.pairwise_append] at hAll
    have hKept := hCopied.distinct hCons hAll.1
    exact hStored.consistent (Or.inr ⟨hMid, hKept⟩) hTable

/- Setting one more entry extends the copy. -/
theorem Copied.step
    {map newMap next : KMap}
    {done : List KMapEntry}
    {entry : KMapEntry}
    (hCopied : Copied map done newMap)
    (hSet :
      SetResult allocator newMap entry.key entry.value
        (next, true)) :
    Copied map (done ++ [entry]) next := by
  rcases hSet.stored rfl with
    ⟨mid, hStored, hTable, _, hAfter⟩
  have hRehashed : Rehashed mid next := hAfter
  have hHash : next.hash = map.hash :=
    hRehashed.hash.trans (hTable.hash.trans hCopied.hash)
  have hEqual : next.equal = map.equal :=
    hRehashed.equal.trans (hTable.equal.trans hCopied.equal)
  have hBuckets : map.bucketCount * 2 ≤ next.bucketCount := by
    have hMid := hTable.bucketCount
    have hNext := hRehashed.bucketCount
    have hOld := hCopied.bucketCount
    omega
  have hNext := hRehashed.objectCount
  have hOld := hCopied.objectCount
  cases hStored with
  | found old rest hPresent hNew hCount =>
      have hLess : next.objectCount < (done ++ [entry]).length := by
        rw [List.length_append, List.length_singleton]
        omega
      refine
        ⟨hRehashed.shaped, hHash, hEqual, hBuckets,
          Nat.le_of_lt hLess, fun h => absurd h (by omega), ?_⟩
      -- An equal key was copied before, so the keys of the
      -- original entries were not distinct.
      intro hCons hAll
      exfalso
      rw [List.map_append, List.pairwise_append] at hAll
      have hFull := hCopied.complete hCons hAll.1
      have hMem :=
        (hCopied.contents hFull).mem_iff.mp
          (hPresent.contents.mem_iff.mpr List.mem_cons_self)
      have hNe :=
        hAll.2.2 old hMem entry.pair (by simp)
      have hSymm :=
        hCons.symm _ _ (hCopied.equal ▸ hPresent.equal)
      rw [show entry.pair.1 = entry.key from rfl, hSymm] at hNe
      cases hNe
  | fresh hFresh hNew hCount =>
      refine
        ⟨hRehashed.shaped, hHash, hEqual, hBuckets, ?_, ?_, ?_⟩
      · rw [List.length_append, List.length_singleton]
        omega
      · intro hFull
        rw [List.length_append, List.length_singleton] at hFull
        have hPerm := hCopied.contents (by omega)
        have hMove :
            (entry.pair :: done.map KMapEntry.pair).Perm
              ((done ++ [entry]).map KMapEntry.pair) := by
          rw [List.map_append]
          exact (List.perm_append_singleton _ _).symm
        exact
          (hRehashed.contents.trans hNew).trans
            ((hPerm.cons entry.pair).trans hMove)
      · intro hCons hAll
        rw [List.map_append, List.pairwise_append] at hAll
        have hFull := hCopied.complete hCons hAll.1
        rw [List.length_append, List.length_singleton]
        omega

/-
  The copying loop, when setting any entry of the map into
  the temporary map behaves.
-/
theorem runs_copyEntries
    {setValue :
      KMap → Option KObjectRef → Option KObjectRef →
        Call (KMap × Bool)}
    {map : KMap}
    (hSet :
      ∀ done entry rest newMap,
        done ++ entry :: rest = map.entries →
          Copied map done newMap →
            Runs allocator A
              (setValue newMap (some entry.key)
                (some entry.value))
              (SetResult allocator newMap entry.key entry.value))
    (done rest : List KMapEntry)
    (hEntries : done ++ rest = map.entries)
    {newMap : KMap}
    (hCopied : Copied map done newMap) :
    Runs allocator A (copyEntries setValue rest newMap)
      (fun r =>
        r.1.Shaped ∧
          (r.2 = true → Copied map map.entries r.1)) := by
  induction rest generalizing done newMap with
  | nil =>
      rw [List.append_nil] at hEntries
      subst hEntries
      exact
        Runs.ret ⟨hCopied.shaped, fun _ => hCopied⟩
  | cons entry rest ih =>
      refine
        Runs.bind (hSet done entry rest newMap hEntries hCopied)
          ?_
      intro r hr
      rcases r with ⟨next, set⟩
      cases set with
      | false =>
          have hSame : next = newMap := (hr.refused rfl).1
          subst hSame
          exact Runs.ret ⟨hCopied.shaped, by simp⟩
      | true =>
          exact
            ih (done ++ [entry]) (by simpa using hEntries)
              (hCopied.step hr)

/- A map that took over the buckets of its copy. -/
theorem Rehashed.swap
    {map newMap : KMap}
    (hShaped : map.Shaped)
    (hCopied : Copied map map.entries newMap)
    (hCount : map.objectCount = newMap.objectCount) :
    Rehashed map { map with buckets := newMap.buckets } := by
  have hPerm :=
    hCopied.contents (hCount.symm.trans hShaped.count)
  have hNew := hCopied.shaped
  refine
    ⟨⟨⟨hNew.buckets, hNew.nonempty, ?_⟩, ?_⟩, rfl, rfl, hPerm,
      rfl, ?_⟩
  · intro i bucket hBucket entry hEntry
    have hPlace := hNew.placed i bucket hBucket entry hEntry
    unfold bucketIndex at hPlace ⊢
    rw [hCopied.hash] at hPlace
    exact hPlace
  · exact hCount.trans hNew.count
  · change map.bucketCount ≤ newMap.bucketCount
    have hTwice := hCopied.bucketCount
    omega

/-
  Setting an entry of the map in its copy behaves if the
  rehashes that nest one less deep do.
-/
theorem runs_setEntry
    {depth : Nat}
    {map : KMap}
    (hRehash :
      ∀ {next : KMap},
        next.Shaped →
          next.objectCount < next.bucketCount * 2 ^ depth →
            (A ∨
              ConsistentHash next.hash next.equal ∧
                next.Distinct) →
              Runs allocator A
                (rehashIfNecessary allocator depth next)
                (fun r => Rehashed next r.1))
    (hShaped : map.Shaped)
    (hDepth :
      map.objectCount < map.bucketCount * 2 ^ (depth + 1))
    (hAssert :
      A ∨ ConsistentHash map.hash map.equal ∧ map.Distinct)
    (done : List KMapEntry)
    (entry : KMapEntry)
    (rest : List KMapEntry)
    (mid : KMap)
    (hSplit : done ++ entry :: rest = map.entries)
    (hCopied : Copied map done mid) :
    Runs allocator A
      (setValueWith allocator
        (rehashIfNecessary allocator depth) mid
        (some entry.key) (some entry.value))
      (SetResult allocator mid entry.key entry.value) := by
  apply runs_setValueWith hCopied.shaped
  intro next hStored hTable hNext
  apply hRehash hNext
  · exact hCopied.nested hShaped hDepth hSplit hStored hTable
  · exact hCopied.consistent hAssert hSplit hStored hTable

/-
  The map takes over the buckets of its copy, and the copy is
  released with the old ones.
-/
theorem runs_adopt
    {map filled : KMap}
    (hShaped : map.Shaped)
    (hAssert :
      A ∨ ConsistentHash map.hash map.equal ∧ map.Distinct)
    (hCopied : Copied map map.entries filled) :
    Runs allocator A
      (do
        kAssert (map.getCount == filled.getCount)
        KObject.release { filled with buckets := map.buckets }
        pure ({ map with buckets := filled.buckets }, true))
      (fun r => Rehashed map r.1) := by
  refine Runs.bind (Runs.ofAssert ?_) ?_
  · intro hFail
    rcases hAssert with hA | ⟨hCons, hDistinct⟩
    · exact hA
    · have hFull := hCopied.complete hCons hDistinct
      have hCount := hShaped.count
      simp [getCount, hFull, hCount] at hFail
  · intro _ hPass
    have hCount : map.objectCount = filled.objectCount := by
      simpa [getCount] using hPass
    have hWellBuilt :
        SafeObject.WellBuilt
          { filled with buckets := map.buckets } :=
      hShaped.wellBuilt
    apply Runs.bind_release _ hWellBuilt
    exact Runs.ret (Rehashed.swap hShaped hCopied hCount)

/-
  Rehashing. Assertions can only fail when the functions are
  inconsistent or the keys are not distinct.
-/
theorem runs_rehashIfNecessary
    (depth : Nat)
    {map : KMap}
    (hShaped : map.Shaped)
    (hDepth :
      map.objectCount < map.bucketCount * 2 ^ depth)
    (hAssert :
      A ∨ ConsistentHash map.hash map.equal ∧ map.Distinct) :
    Runs allocator A (rehashIfNecessary allocator depth map)
      (fun r => Rehashed map r.1) := by
  induction depth generalizing map with
  | zero =>
      have hLoad : map.getLoadFactor < kMapMaxLoadFactor := by
        rw [getLoadFactor_lt_iff hShaped.nonempty]
        simpa using hDepth
      unfold rehashIfNecessary
      rw [if_pos hLoad]
      exact Runs.ret (.refl hShaped)
  | succ depth ih =>
      unfold rehashIfNecessary
      by_cases hLoad : map.getLoadFactor < kMapMaxLoadFactor
      · rw [if_pos hLoad]
        exact Runs.ret (.refl hShaped)
      · rw [if_neg hLoad]
        refine
          Runs.bind (runs_allocWithBucketCount map.hash map.equal _)
            ?_
        intro newMap hNew
        cases newMap with
        | none =>
            exact Runs.ret (.refl hShaped)
        | some newMap =>
            simp only [copyBuckets_eq]
            have hFresh := hNew.2 newMap rfl
            refine
              Runs.bind
                (runs_copyEntries
                  (runs_setEntry ih hShaped hDepth hAssert) []
                  map.entries rfl (.start hFresh))
                ?_
            intro r hr
            rcases r with ⟨filled, copied⟩
            cases copied with
            | false =>
                apply Runs.bind_release filled hr.1.wellBuilt
                exact Runs.ret (.refl hShaped)
            | true =>
                exact runs_adopt hShaped hAssert (hr.2 rfl)

/-
  The depth that `KMapSetValue` starts with is enough after
  storing.
-/
theorem Stored.depth
    {map mid : KMap}
    {key value : KObjectRef}
    (hStored : Stored map key value mid)
    (hMid : mid.Shaped) :
    mid.objectCount <
      mid.bucketCount * 2 ^ (map.objectCount + 1) := by
  have hCount : mid.objectCount ≤ map.objectCount + 1 := by
    cases hStored with
    | found _ _ _ _ h => omega
    | fresh _ _ h => omega
  have hPow : map.objectCount + 1 < 2 ^ (map.objectCount + 1) :=
    Nat.lt_two_pow_self
  have hBuckets :
      2 ^ (map.objectCount + 1) ≤
        mid.bucketCount * 2 ^ (map.objectCount + 1) :=
    Nat.le_mul_of_pos_left _ hMid.nonempty
  omega

/-
  `KMapSetValue` stores the pair, or changes nothing after a
  refused request.
-/
theorem runs_setValue
    {map : KMap}
    (hShaped : map.Shaped)
    (key value : KObjectRef)
    (hAssert :
      A ∨ ConsistentHash map.hash map.equal ∧ map.Distinct) :
    Runs allocator A
      (map.setValue allocator (some key) (some value))
      (SetResult allocator map key value) := by
  apply runs_setValueWith hShaped key value
  intro mid hStored hTable hMid
  exact
    runs_rehashIfNecessary _ hMid (hStored.depth hMid)
      (hStored.consistent hAssert hTable)

end KMap

end KDoth
