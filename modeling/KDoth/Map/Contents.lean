import KDoth.Map.KMap
import Mathlib.Data.List.Perm.Basic

/-
  What the operations of a map do to its key/value pairs,
  whatever the allocator answers and whatever the references
  to the pairs do.

  The shape of a map says that its buckets exist, that every
  entry is in the bucket of its key's hash, and that the
  object count is the number of entries. No property of
  `hash` and `equal` is used to keep it: a rehash asserts
  that it copied every entry.

  Key definitions include:
    * `KMap.contents`
    * `KMap.Built`
    * `KMap.Shaped`
    * `KMap.copyEntries`

  Key theorems include:
    * `KMapEntry.search_eq`
    * `KMap.Built.putBucket`
    * `KMap.copyBuckets_eq`
-/

------------------------------------------------------------
-- Safe Release
------------------------------------------------------------

namespace KDoth

instance : SafeObject KMapEntry where
  WellBuilt _ := True
  runs_retain _ _ _ := Runs.ofObjectRetain
  runs_release _ _ _ _ :=
    Runs.ofObjectRelease
      (Runs.bind (R := fun _ => True)
        (Runs.update (fun _ => rfl) trivial)
        (fun _ _ => Runs.update (fun _ => rfl) trivial))

/- A map without buckets is released safely. -/
instance : SafeObject KMap where
  WellBuilt map :=
    ∀ buckets, map.buckets = some buckets → buckets.WellBuilt
  runs_retain _ _ _ := Runs.ofObjectRetain
  runs_release allocator A map hBuilt := by
    apply Runs.ofObjectRelease
    unfold KMap.deInit
    cases hBuckets : map.buckets with
    | none => exact Runs.ret trivial
    | some buckets =>
        exact
          SafeObject.runs_release allocator A buckets
            (hBuilt buckets hBuckets)

/- Releasing NULL or a safe object is safe. -/
theorem Runs.releaseOrNull
    {α : Type}
    [KObject α]
    [SafeObject α]
    {allocator : Allocator}
    {A : Prop}
    {object : Option α}
    (hBuilt : ∀ x, object = some x → SafeObject.WellBuilt x) :
    Runs allocator A (KObject.releaseOrNull object)
      (fun _ => True) := by
  cases object with
  | none => exact Runs.ret trivial
  | some x =>
      exact SafeObject.runs_release allocator A x (hBuilt x rfl)

end KDoth

------------------------------------------------------------
-- Searching A Bucket
------------------------------------------------------------

namespace KDoth

namespace KMapEntry

variable {equal : KObjectRef → KObjectRef → Bool}
variable {key : KObjectRef}

/- The entry found is at its position and has an equal key. -/
theorem find?_eq_some
    {items : List KMapEntry}
    {i : Nat}
    {entry : KMapEntry}
    (hFind : find? equal key items = some (i, entry)) :
    items[i]? = some entry ∧
      equal key entry.key = true := by
  induction items generalizing i with
  | nil => simp [find?] at hFind
  | cons head tail ih =>
      by_cases hHead : equal key head.key = true
      · simp only [find?, hHead, if_true, Option.some.injEq,
          Prod.mk.injEq] at hFind
        rcases hFind with ⟨hIndex, hEntry⟩
        subst hIndex
        subst hEntry
        exact ⟨rfl, hHead⟩
      · cases hTail : find? equal key tail with
        | none => simp [find?, hHead, hTail] at hFind
        | some found =>
            rcases found with ⟨j, other⟩
            simp only [find?, hHead, hTail, Bool.false_eq_true,
              if_false, Option.some.injEq,
              Prod.mk.injEq] at hFind
            rcases hFind with ⟨hIndex, hEntry⟩
            subst hIndex
            subst hEntry
            exact ih hTail

/- Nothing is found when no key is equal. -/
theorem find?_eq_none
    {items : List KMapEntry}
    (hFind : find? equal key items = none) :
    ∀ entry ∈ items, equal key entry.key = false := by
  induction items with
  | nil => simp
  | cons head tail ih =>
      by_cases hHead : equal key head.key = true
      · simp [find?, hHead] at hFind
      · cases hTail : find? equal key tail with
        | some found => simp [find?, hHead, hTail] at hFind
        | none =>
            intro entry hMem
            rcases List.mem_cons.mp hMem with hEq | hRest
            · rw [hEq]
              simpa using hHead
            · exact ih hTail entry hRest

/-
  The loop finds what is in the rest of the bucket. It runs
  over its entries only, so its assertion holds.
-/
theorem search_eq_drop
    {bucket : KList KMapEntry}
    {n i : Nat}
    (hRest : i + n = bucket.items.length) :
    search equal key bucket n i =
      pure
        ((find? equal key (bucket.items.drop i)).map
          fun found => (i + found.1, found.2)) := by
  induction n generalizing i with
  | zero =>
      rw [List.drop_of_length_le (by omega)]
      rfl
  | succ n ih =>
      have hLt : i < bucket.items.length := by omega
      have hGet :
          bucket.getObjectAtIndex i = some bucket.items[i] :=
        List.getElem?_eq_getElem hLt
      rw [List.drop_eq_getElem_cons hLt]
      simp only [search, hGet, kAssertSome, pure_bind, find?]
      by_cases hHead :
          equal key (bucket.items[i]).key = true
      · simp [hHead]
      · rw [if_neg hHead, if_neg hHead, ih (by omega)]
        cases find? equal key (bucket.items.drop (i + 1)) with
        | none => rfl
        | some found =>
            simp only [Option.map_some, Nat.add_assoc,
              Nat.add_comm 1]

theorem search_eq
    (bucket : KList KMapEntry) :
    search equal key bucket bucket.getCount 0 =
      pure (find? equal key bucket.items) := by
  have hEq :
      search equal key bucket bucket.items.length 0 = _ :=
    search_eq_drop (Nat.zero_add bucket.items.length)
  simpa [KList.getCount] using hEq

end KMapEntry

end KDoth

------------------------------------------------------------
-- Buckets And Entries
------------------------------------------------------------

namespace KDoth

/- The key and the value of an entry. -/
def KMapEntry.pair (entry : KMapEntry) :
    KObjectRef × KObjectRef :=
  (entry.key, entry.value)

namespace KMap

/- The buckets in order. -/
def slots (map : KMap) : List (KList KMapEntry) :=
  match map.buckets with
  | none => []
  | some buckets => buckets.slots

/- The key/value pairs, bucket by bucket. -/
def contents (map : KMap) :
    List (KObjectRef × KObjectRef) :=
  map.entries.map KMapEntry.pair

theorem entries_eq (map : KMap) :
    map.entries = map.slots.flatMap KList.items := by
  unfold entries slots
  cases map.buckets <;> rfl

theorem bucketCount_eq (map : KMap) :
    map.bucketCount = map.slots.length := by
  unfold bucketCount slots
  cases map.buckets <;> rfl

theorem bucketAt_eq
    (map : KMap)
    (i : Nat) :
    map.bucketAt i = map.slots[i]? := by
  unfold bucketAt slots
  cases map.buckets <;> rfl

theorem getBucket_eq
    (map : KMap)
    (key : KObjectRef) :
    map.getBucket key = map.slots[map.bucketIndex key]? :=
  bucketAt_eq map (map.bucketIndex key)

theorem slots_putBucket
    (map : KMap)
    (key : KObjectRef)
    (bucket : KList KMapEntry) :
    (map.putBucket key bucket).slots =
      map.slots.set (map.bucketIndex key) bucket := by
  unfold putBucket
  cases hBuckets : map.buckets <;> simp [slots, hBuckets]

@[simp] theorem hash_putBucket
    (map : KMap)
    (key : KObjectRef)
    (bucket : KList KMapEntry) :
    (map.putBucket key bucket).hash = map.hash := by
  unfold putBucket
  cases map.buckets <;> rfl

@[simp] theorem equal_putBucket
    (map : KMap)
    (key : KObjectRef)
    (bucket : KList KMapEntry) :
    (map.putBucket key bucket).equal = map.equal := by
  unfold putBucket
  cases map.buckets <;> rfl

@[simp] theorem objectCount_putBucket
    (map : KMap)
    (key : KObjectRef)
    (bucket : KList KMapEntry) :
    (map.putBucket key bucket).objectCount =
      map.objectCount := by
  unfold putBucket
  cases map.buckets <;> rfl

@[simp] theorem bucketCount_putBucket
    (map : KMap)
    (key : KObjectRef)
    (bucket : KList KMapEntry) :
    (map.putBucket key bucket).bucketCount =
      map.bucketCount := by
  rw [bucketCount_eq, bucketCount_eq, slots_putBucket,
    List.length_set]

@[simp] theorem bucketIndex_putBucket
    (map : KMap)
    (key other : KObjectRef)
    (bucket : KList KMapEntry) :
    (map.putBucket key bucket).bucketIndex other =
      map.bucketIndex other := by
  simp [bucketIndex]

/-
  One bucket and the rest, and only the former changes when
  the bucket is written back.
-/
theorem slots_perm_bucket
    {map : KMap}
    {key : KObjectRef}
    {bucket : KList KMapEntry}
    (hBucket : map.getBucket key = some bucket) :
    ∃ rest,
      map.slots.Perm (bucket :: rest) ∧
        ∀ changed,
          (map.putBucket key changed).slots.Perm
            (changed :: rest) := by
  rw [getBucket_eq] at hBucket
  rcases List.getElem?_eq_some_iff.mp hBucket with
    ⟨hLt, hGet⟩
  refine
    ⟨map.slots.eraseIdx (map.bucketIndex key), ?_, ?_⟩
  · have hPerm := List.getElem_cons_eraseIdx_perm hLt
    rw [hGet] at hPerm
    exact hPerm.symm
  · intro changed
    rw [slots_putBucket]
    exact List.set_perm_cons_eraseIdx hLt changed

/- The entries are those of one bucket and the rest. -/
theorem entries_perm_bucket
    {map : KMap}
    {key : KObjectRef}
    {bucket : KList KMapEntry}
    (hBucket : map.getBucket key = some bucket) :
    ∃ rest,
      map.entries.Perm (bucket.items ++ rest) ∧
        ∀ changed,
          (map.putBucket key changed).entries.Perm
            (changed.items ++ rest) := by
  rcases slots_perm_bucket hBucket with
    ⟨rest, hBefore, hAfter⟩
  refine ⟨rest.flatMap KList.items, ?_, ?_⟩
  · rw [entries_eq]
    exact hBefore.flatMap_right KList.items
  · intro changed
    rw [entries_eq]
    exact (hAfter changed).flatMap_right KList.items

end KMap

end KDoth

------------------------------------------------------------
-- Shape
------------------------------------------------------------

namespace KDoth

namespace KMap

/-
  The buckets exist and every entry is in the bucket of its
  key's hash.
-/
structure Built (map : KMap) : Prop where
  buckets :
    ∃ buckets, map.buckets = some buckets ∧ buckets.WellBuilt
  nonempty : 0 < map.bucketCount
  placed :
    ∀ i bucket,
      map.slots[i]? = some bucket →
        ∀ entry ∈ bucket.items, map.bucketIndex entry.key = i

/- A built map whose object count is its number of entries. -/
structure Shaped (map : KMap) : Prop extends Built map where
  count : map.objectCount = map.entries.length

/- A built map can be released. -/
theorem Built.wellBuilt
    {map : KMap}
    (hBuilt : map.Built) :
    SafeObject.WellBuilt map := by
  rcases hBuilt.buckets with ⟨buckets, hBuckets, hWell⟩
  intro other hOther
  rw [hBuckets] at hOther
  cases hOther
  exact hWell

/- Every key has a bucket. -/
theorem Built.getBucket
    {map : KMap}
    (hBuilt : map.Built)
    (key : KObjectRef) :
    ∃ bucket, map.getBucket key = some bucket := by
  have hLt : map.bucketIndex key < map.slots.length := by
    rw [← bucketCount_eq]
    exact Nat.mod_lt _ hBuilt.nonempty
  exact ⟨_, by rw [getBucket_eq, List.getElem?_eq_getElem hLt]⟩

/- Writing back a bucket of entries with the right index. -/
theorem Built.putBucket
    {map : KMap}
    (hBuilt : map.Built)
    {key : KObjectRef}
    {bucket : KList KMapEntry}
    (hItems :
      ∀ entry ∈ bucket.items,
        map.bucketIndex entry.key = map.bucketIndex key) :
    (map.putBucket key bucket).Built := by
  constructor
  · rcases hBuilt.buckets with ⟨buckets, hBuckets, hWell⟩
    refine
      ⟨{ buckets with
          slots :=
            buckets.slots.set (map.bucketIndex key) bucket },
        by simp [KMap.putBucket, hBuckets], ?_, ?_⟩
    · rcases hWell.items with ⟨items, hSome, hBuffer⟩
      refine ⟨items, hSome, ?_⟩
      intro hNonempty
      apply hBuffer
      intro hEmpty
      apply hNonempty
      simp [hEmpty]
    · intro list hList
      rcases List.mem_or_eq_of_mem_set hList with hOld | hNew
      · exact hWell.slots list hOld
      · exact fun _ _ => True.intro
  · rw [bucketCount_putBucket]
    exact hBuilt.nonempty
  · intro i list hList entry hEntry
    rw [bucketIndex_putBucket]
    rw [slots_putBucket, List.getElem?_set] at hList
    by_cases hIndex : map.bucketIndex key = i
    · rw [if_pos hIndex] at hList
      by_cases hLt : map.bucketIndex key < map.slots.length
      · rw [if_pos (hIndex ▸ hLt)] at hList
        cases hList
        rw [hItems entry hEntry, hIndex]
      · rw [if_neg (hIndex ▸ hLt)] at hList
        cases hList
    · rw [if_neg hIndex] at hList
      exact hBuilt.placed i list hList entry hEntry

/- Entries of one bucket share its index. -/
theorem Built.bucketIndex_of_mem
    {map : KMap}
    (hBuilt : map.Built)
    {key : KObjectRef}
    {bucket : KList KMapEntry}
    (hBucket : map.getBucket key = some bucket) :
    ∀ entry ∈ bucket.items,
      map.bucketIndex entry.key = map.bucketIndex key := by
  rw [getBucket_eq] at hBucket
  exact hBuilt.placed _ bucket hBucket

/- An entry with the index of a key is in the key's bucket. -/
theorem Built.mem_bucket
    {map : KMap}
    (hBuilt : map.Built)
    {key : KObjectRef}
    {bucket : KList KMapEntry}
    (hBucket : map.getBucket key = some bucket)
    {entry : KMapEntry}
    (hEntry : entry ∈ map.entries)
    (hIndex :
      map.bucketIndex entry.key = map.bucketIndex key) :
    entry ∈ bucket.items := by
  rw [entries_eq, List.mem_flatMap] at hEntry
  rcases hEntry with ⟨list, hList, hMem⟩
  rcases List.mem_iff_getElem?.mp hList with ⟨i, hGet⟩
  have hPlace := hBuilt.placed i list hGet entry hMem
  rw [getBucket_eq, ← hIndex, hPlace, hGet] at hBucket
  cases hBucket
  exact hMem

end KMap

end KDoth

------------------------------------------------------------
-- Copying
------------------------------------------------------------

namespace KDoth

namespace KMap

/- Set some entries in a map, until one cannot be set. -/
def copyEntries
    (setValue :
      KMap → Option KObjectRef → Option KObjectRef →
        Call (KMap × Bool)) :
    List KMapEntry → KMap → Call (KMap × Bool)
| [], newMap => pure (newMap, true)
| entry :: entries, newMap => do
    let (newMap, set) ←
      setValue newMap (some entry.key) (some entry.value)
    if set then
      copyEntries setValue entries newMap
    else
      pure (newMap, false)

variable
  {setValue :
    KMap → Option KObjectRef → Option KObjectRef →
      Call (KMap × Bool)}

/- One loop after the other. -/
theorem copyEntries_append
    (l l' : List KMapEntry)
    (newMap : KMap) :
    copyEntries setValue (l ++ l') newMap =
      (do
        let (newMap, copied) ← copyEntries setValue l newMap
        if copied then
          copyEntries setValue l' newMap
        else
          pure (newMap, false)) := by
  induction l generalizing newMap with
  | nil => simp [copyEntries]
  | cons entry l ih =>
      simp only [List.cons_append, copyEntries, bind_assoc]
      congr 1
      funext r
      rcases r with ⟨next, set⟩
      cases set with
      | true => exact ih next
      | false => simp

/- The inner loop copies the rest of the bucket. -/
theorem copyBucket_eq
    {bucket : KList KMapEntry}
    {n j : Nat}
    (newMap : KMap)
    (hRest : j + n = bucket.items.length) :
    copyBucket setValue bucket n j newMap =
      copyEntries setValue (bucket.items.drop j) newMap := by
  induction n generalizing j newMap with
  | zero =>
      rw [List.drop_of_length_le (by omega)]
      rfl
  | succ n ih =>
      have hLt : j < bucket.items.length := by omega
      have hGet :
          bucket.getObjectAtIndex j = some bucket.items[j] :=
        List.getElem?_eq_getElem hLt
      rw [List.drop_eq_getElem_cons hLt]
      simp only [copyBucket, hGet, kAssertSome, pure_bind,
        copyEntries]
      congr 1
      funext r
      rcases r with ⟨next, set⟩
      cases set with
      | true => exact ih next (by omega)
      | false => rfl

/- The outer loop copies the rest of the buckets. -/
theorem copyBuckets_eq_drop
    {map : KMap}
    {n i : Nat}
    (newMap : KMap)
    (hRest : i + n = map.slots.length) :
    copyBuckets setValue map n i newMap =
      copyEntries setValue
        ((map.slots.drop i).flatMap KList.items) newMap := by
  induction n generalizing i newMap with
  | zero =>
      rw [List.drop_of_length_le (by omega)]
      rfl
  | succ n ih =>
      have hLt : i < map.slots.length := by omega
      have hGet : map.bucketAt i = some map.slots[i] := by
        rw [bucketAt_eq]
        exact List.getElem?_eq_getElem hLt
      have hInner :
          copyBucket setValue map.slots[i]
              (map.slots[i]).getCount 0 newMap =
            copyEntries setValue (map.slots[i]).items newMap :=
        copyBucket_eq newMap (Nat.zero_add _)
      rw [List.drop_eq_getElem_cons hLt, List.flatMap_cons,
        copyEntries_append]
      simp only [copyBuckets, hGet, kAssertSome, pure_bind,
        hInner]
      congr 1
      funext r
      rcases r with ⟨next, copied⟩
      cases copied with
      | true => exact ih next (by omega)
      | false => rfl

/- A rehash copies every entry of the map. -/
theorem copyBuckets_eq
    (map newMap : KMap) :
    copyBuckets setValue map map.bucketCount 0 newMap =
      copyEntries setValue map.entries newMap := by
  have hRest : 0 + map.bucketCount = map.slots.length := by
    rw [Nat.zero_add, bucketCount_eq]
  rw [copyBuckets_eq_drop newMap hRest, entries_eq,
    List.drop_zero]

end KMap

end KDoth
