import KDoth.Objects.ReferenceLaw

/-
  The map of `kmap.c` as objects of the heap: a map refers to
  its array of buckets, the array to lists, a list to entries
  and an entry to its key and its value. Each may have other
  references, and what is reached below a value is any graph.

  What follows the overwrite or the insertion is a parameter
  of `KMapSetValue` here: the rehash.

  Key definitions include:
    * `KMapObject`
    * `Heap.mapGetBucket`
    * `Heap.mapSearch`
    * `Heap.mapSetValueNoRehash`
    * `Heap.mapSetValueWith`
    * `KMapObject.Finds`
    * `KMapObject.Present`

  Key theorems include:
    * `KMapObject.Finds.mapSearch_apply`
    * `KMapObject.Present.setValueNoRehash_apply`
-/

------------------------------------------------------------
-- Reading Objects With Fields
------------------------------------------------------------

namespace KDoth

/-
  A map whose buckets, the only reference it holds, are in
  the heap.
-/
structure KMapObject where
  object : KObjectRef
  hash : KObjectRef → UInt64
  equal : KObjectRef → KObjectRef → Bool
  objectCount : Nat

namespace Heap

/- The fields of an object that is no container. -/
def objectFields (o : KObjectRef) :
    HeapCall (List KObjectRef) := do
  let block ← read o
  match block.body with
  | .object fields => pure fields
  | _ => throw .wrongClass

/- `map->buckets`. -/
def mapBuckets (map : KObjectRef) :
    HeapCall KObjectRef := do
  match ← objectFields map with
  | [buckets] => pure buckets
  | [] => throw .nullDereference
  | _ => throw .wrongClass

/- `entry->key` and `entry->value`. -/
def entryFields (entry : KObjectRef) :
    HeapCall (KObjectRef × KObjectRef) := do
  match ← objectFields entry with
  | [key, value] => pure (key, value)
  | [] => throw .nullDereference
  | _ => throw .wrongClass

/- Write `entry->value`. -/
def setEntryValue
    (entry value : KObjectRef) :
    HeapCall Unit := do
  let (key, _) ← entryFields entry
  setBody entry (.object [key, value])

end Heap

end KDoth

------------------------------------------------------------
-- Setting A Value
------------------------------------------------------------

namespace KDoth

/- The answers to the requests of an insertion. -/
structure EntryAnswers where
  entry : Bool
  listEntry : Bool
deriving DecidableEq, Repr

namespace Heap

/- `KMapEntryNew` on a key and a value that are not NULL. -/
def mapEntryNew
    (key value : KObjectRef)
    (granted : Bool) :
    HeapCall (Option KObjectRef) := do
  match ← objectNew (.object []) granted with
  | none => pure none
  | some entry =>
      objectRetain (some key)
      objectRetain (some value)
      setBody entry (.object [key, value])
      pure (some entry)

/- `KMapGetBucket` on a key that is not NULL. -/
def mapGetBucket
    (map : KMapObject)
    (key : KObjectRef) :
    HeapCall (Option KObjectRef) := do
  let buckets ← mapBuckets map.object
  let lists ← arrayItems buckets
  pure lists[(map.hash key).toNat % lists.length]?

/-
  The loop of `KMapSetValueNoRehash` over a bucket, for some
  iterations from a position on. It yields the entry with an
  equal key and its fields.
-/
def mapSearch
    (map : KMapObject)
    (key bucket : KObjectRef) :
    Nat → Nat →
      HeapCall (Option (KObjectRef × KObjectRef × KObjectRef))
| 0, _ => pure none
| n + 1, i => do
    let entries ← listItems bucket
    match entries[i]? with
    | none => throw .assertFailed
    | some entry =>
        let (k, v) ← entryFields entry
        if map.equal key k then
          pure (some (entry, k, v))
        else
          mapSearch map key bucket n (i + 1)

/- `KMapSetValueNoRehash`. -/
def mapSetValueNoRehash
    (map : KMapObject)
    (key value : Option KObjectRef)
    (answers : EntryAnswers) :
    HeapCall (KMapObject × Bool) := do
  match value, key with
  | none, _ => pure (map, false)
  | some _, none => pure (map, false)
  | some value, some key =>
      match ← mapGetBucket map key with
      | none => pure (map, false)
      | some bucket =>
          let entries ← listItems bucket
          match ← mapSearch map key bucket entries.length 0 with
          | some (entry, _, old) =>
              if value = old then
                -- Already in the map.
                pure (map, true)
              else
                objectRelease (some old)
                objectRetain (some value)
                setEntryValue entry value
                pure (map, true)
          | none =>
              let newEntry ←
                mapEntryNew key value answers.entry
              let added ←
                listAddObject (some bucket) newEntry
                  answers.listEntry
              objectRelease newEntry
              if added then
                pure
                  ({ map with
                      objectCount := map.objectCount + 1 },
                    true)
              else
                pure (map, false)

/- `KMapSetValue`, given how the map rehashes. -/
def mapSetValueWith
    (rehash : KMapObject → HeapCall (KMapObject × Bool))
    (map : KMapObject)
    (key value : Option KObjectRef)
    (answers : EntryAnswers) :
    HeapCall (KMapObject × Bool) := do
  let (map, set) ← mapSetValueNoRehash map key value answers
  if set then
    let (map, _) ← rehash map
    pure (map, true)
  else
    pure (map, false)

end Heap

end KDoth

------------------------------------------------------------
-- Keys That Are Present
------------------------------------------------------------

namespace KDoth

namespace KMapObject

/-
  The first of some entries with an equal key, and its
  fields.
-/
inductive Finds
    (h : Heap)
    (map : KMapObject)
    (key : KObjectRef) :
    List KObjectRef →
      KObjectRef → KObjectRef → KObjectRef → Prop
| here {entry k v : KObjectRef} {rest : List KObjectRef}
    (hBody : h.body? entry = some (.object [k, v]))
    (hEqual : map.equal key k = true) :
    Finds h map key (entry :: rest) entry k v
| later
    {other k' v' entry k v : KObjectRef}
    {rest : List KObjectRef}
    (hBody : h.body? other = some (.object [k', v']))
    (hDiffers : map.equal key k' = false)
    (hRest : Finds h map key rest entry k v) :
    Finds h map key (other :: rest) entry k v

/- The bucket of a key and its entries. -/
structure Bucket
    (h : Heap)
    (map : KMapObject)
    (key bucket : KObjectRef)
    (entries : List KObjectRef) : Prop where
  located :
    ∃ buckets lists,
      h.body? map.object = some (.object [buckets]) ∧
        h.body? buckets = some (.array lists) ∧
          lists[(map.hash key).toNat % lists.length]? =
            some bucket
  entries : h.body? bucket = some (.list entries)

/- The key is present, with an entry that holds `k` and `v`. -/
def Present
    (h : Heap)
    (map : KMapObject)
    (key entry k v : KObjectRef) : Prop :=
  ∃ bucket entries,
    Bucket h map key bucket entries ∧
      Finds h map key entries entry k v

end KMapObject

end KDoth

------------------------------------------------------------
-- Finding The Entry
------------------------------------------------------------

namespace KDoth

namespace Heap

open Command

variable {h : Heap} {o : KObjectRef}

theorem objectFields_apply
    {fields : List KObjectRef}
    (hBody : h.body? o = some (.object fields)) :
    objectFields o h = .ok fields h := by
  rcases Option.map_eq_some_iff.mp hBody with
    ⟨block, hBlock, hEq⟩
  unfold objectFields
  rw [bind_of_ok (read_apply hBlock), hEq]
  rfl

theorem mapBuckets_apply
    {buckets : KObjectRef}
    (hBody : h.body? o = some (.object [buckets])) :
    mapBuckets o h = .ok buckets h := by
  unfold mapBuckets
  rw [bind_of_ok (objectFields_apply hBody)]
  rfl

theorem entryFields_apply
    {k v : KObjectRef}
    (hBody : h.body? o = some (.object [k, v])) :
    entryFields o h = .ok (k, v) h := by
  unfold entryFields
  rw [bind_of_ok (objectFields_apply hBody)]
  rfl

end Heap

namespace KMapObject

open Command Heap

variable {h : Heap} {map : KMapObject}
variable {key bucket entry k v : KObjectRef}
variable {entries : List KObjectRef}

theorem Bucket.mapGetBucket_apply
    (hBucket : Bucket h map key bucket entries) :
    mapGetBucket map key h = .ok (some bucket) h := by
  rcases hBucket.located with
    ⟨buckets, lists, hMap, hBuckets, hAt⟩
  unfold mapGetBucket
  rw [bind_of_ok (mapBuckets_apply hMap),
    bind_of_ok (arrayItems_apply hBuckets), hAt]
  rfl

/- One turn of the loop reads the first entry that is left. -/
theorem mapSearch_cons
    {rest : List KObjectRef}
    (hBody : h.body? bucket = some (.list entries))
    (hEntry : h.body? entry = some (.object [k, v]))
    {n i : Nat}
    (hRest : entries.drop i = entry :: rest)
    (hLength : i + n = entries.length) :
    ∃ m,
      n = m + 1 ∧ entries.drop (i + 1) = rest ∧
        mapSearch map key bucket n i h =
          if map.equal key k = true then
            .ok (some (entry, k, v)) h
          else
            mapSearch map key bucket m (i + 1) h := by
  have hLt : i < entries.length := by
    by_contra hNot
    rw [List.drop_of_length_le (by omega)] at hRest
    cases hRest
  rw [List.drop_eq_getElem_cons hLt] at hRest
  injection hRest with hHead hTail
  obtain ⟨m, rfl⟩ : ∃ m, n = m + 1 := ⟨n - 1, by omega⟩
  refine ⟨m, rfl, hTail, ?_⟩
  rw [mapSearch, bind_of_ok (listItems_apply hBody)]
  simp only [List.getElem?_eq_getElem hLt, hHead]
  rw [bind_of_ok (entryFields_apply hEntry)]
  split <;> rfl

/-
  The loop stops at the entry, by induction on the entries
  before it.
-/
theorem Finds.mapSearch_apply
    {rest : List KObjectRef}
    (hFinds : Finds h map key rest entry k v)
    (hBody : h.body? bucket = some (.list entries))
    {n i : Nat}
    (hRest : entries.drop i = rest)
    (hLength : i + n = entries.length) :
    mapSearch map key bucket n i h =
      .ok (some (entry, k, v)) h := by
  induction hFinds generalizing n i with
  | here hEntry hEqual =>
      rcases mapSearch_cons hBody hEntry hRest hLength with
        ⟨m, _, _, hTurn⟩
      rw [hTurn, if_pos hEqual]
  | later hOther hDiffers _ ih =>
      rcases mapSearch_cons hBody hOther hRest hLength with
        ⟨m, hMore, hTail, hTurn⟩
      rw [hTurn, if_neg (Bool.eq_false_iff.mp hDiffers)]
      exact ih hTail (by omega)

theorem Finds.mem
    (hFinds : Finds h map key entries entry k v) :
    entry ∈ entries := by
  induction hFinds with
  | here => exact List.mem_cons_self
  | later _ _ _ ih => exact List.mem_cons_of_mem _ ih

theorem Finds.body
    (hFinds : Finds h map key entries entry k v) :
    h.body? entry = some (.object [k, v]) := by
  induction hFinds with
  | here hBody _ => exact hBody
  | later _ _ _ ih => exact ih

theorem Finds.equal
    (hFinds : Finds h map key entries entry k v) :
    map.equal key k = true := by
  induction hFinds with
  | here _ hEqual => exact hEqual
  | later _ _ _ ih => exact ih

theorem Present.body
    (hPresent : Present h map key entry k v) :
    h.body? entry = some (.object [k, v]) := by
  rcases hPresent with ⟨_, _, _, hFinds⟩
  exact hFinds.body

end KMapObject

end KDoth

------------------------------------------------------------
-- Overwriting
------------------------------------------------------------

namespace KDoth

namespace KMapObject

open Command Heap

variable {h : Heap} {map : KMapObject}
variable {key entry k v : KObjectRef}

/-
  The value that is there already is left alone. Another one
  is retained after that one is released.
-/
theorem Present.setValueNoRehash_apply
    (hPresent : Present h map key entry k v)
    (w : KObjectRef)
    (answers : EntryAnswers) :
    mapSetValueNoRehash map (some key) (some w) answers h =
      (if w = v then
        pure (map, true)
      else do
        Heap.objectRelease (some v)
        Heap.objectRetain (some w)
        setEntryValue entry w
        pure (map, true) : HeapCall (KMapObject × Bool)) h := by
  rcases hPresent with ⟨bucket, entries, hBucket, hFinds⟩
  have hSearch :
      mapSearch map key bucket entries.length 0 h =
        .ok (some (entry, k, v)) h :=
    hFinds.mapSearch_apply hBucket.entries rfl
      (Nat.zero_add entries.length)
  unfold mapSetValueNoRehash
  dsimp only
  rw [bind_of_ok hBucket.mapGetBucket_apply]
  dsimp only
  rw [bind_of_ok (listItems_apply hBucket.entries),
    bind_of_ok hSearch]

/- What was set is handed to the rehash. -/
theorem setValueWith_of_ok
    {key value : Option KObjectRef}
    {answers : EntryAnswers}
    {h' : Heap}
    {map' : KMapObject}
    (hRun :
      mapSetValueNoRehash map key value answers h =
        .ok (map', true) h')
    (rehash : KMapObject → HeapCall (KMapObject × Bool)) :
    mapSetValueWith rehash map key value answers h =
      (do
        let (map, _) ← rehash map'
        pure (map, true) : HeapCall (KMapObject × Bool)) h' := by
  unfold mapSetValueWith
  rw [bind_of_ok hRun]
  rfl

theorem setValueWith_of_error
    {key value : Option KObjectRef}
    {answers : EntryAnswers}
    {h' : Heap}
    {stop : HeapStop}
    (hRun :
      mapSetValueNoRehash map key value answers h =
        .error stop h')
    (rehash : KMapObject → HeapCall (KMapObject × Bool)) :
    mapSetValueWith rehash map key value answers h =
      .error stop h' := by
  unfold mapSetValueWith
  exact bind_of_error hRun

end KMapObject

end KDoth
