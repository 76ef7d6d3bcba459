import KDoth.Map.Contents

/-
  The single-bucket operations of a map: storing without a
  rehash, reading and removing.

  Key definitions include:
    * `KMap.SameTable`
    * `KMap.Stored`

  Key theorems include:
    * `KMap.runs_setValueNoRehash`
    * `KMap.getValue_spec`
    * `KMap.removeValue_spec`
-/

------------------------------------------------------------
-- Contents Through One Bucket
------------------------------------------------------------

namespace KDoth

namespace KMap

/- The entry found in a bucket, and the pairs of the rest. -/
theorem contents_perm_found
    {map : KMap}
    {key : KObjectRef}
    {bucket : KList KMapEntry}
    (hBucket : map.getBucket key = some bucket)
    {i : Nat}
    {entry : KMapEntry}
    (hEntry : bucket.items[i]? = some entry) :
    ∃ rest,
      map.contents.Perm (entry.pair :: rest) ∧
        (map.putBucket key
            { bucket with
              items := bucket.items.eraseIdx i }).contents.Perm
          rest ∧
        ∀ changed : KMapEntry,
          (map.putBucket key
              { bucket with
                items :=
                  bucket.items.set i changed }).contents.Perm
            (changed.pair :: rest) := by
  rcases entries_perm_bucket hBucket with
    ⟨others, hBefore, hAfter⟩
  rcases List.getElem?_eq_some_iff.mp hEntry with
    ⟨hLt, hGet⟩
  have hItems :
      bucket.items.Perm (entry :: bucket.items.eraseIdx i) := by
    have hPerm := List.getElem_cons_eraseIdx_perm hLt
    rw [hGet] at hPerm
    exact hPerm.symm
  refine
    ⟨(bucket.items.eraseIdx i ++ others).map KMapEntry.pair,
      ?_, (hAfter _).map _, ?_⟩
  · exact
      (hBefore.trans (hItems.append_right others)).map
        KMapEntry.pair
  · intro changed
    have hSet :=
      (List.set_perm_cons_eraseIdx hLt changed).append_right
        others
    exact
      ((hAfter
          { bucket with
            items := bucket.items.set i changed }).trans
        hSet).map KMapEntry.pair

/- An entry appended to a bucket. -/
theorem contents_perm_append
    {map : KMap}
    {key : KObjectRef}
    {bucket : KList KMapEntry}
    (hBucket : map.getBucket key = some bucket)
    (entry : KMapEntry) :
    (map.putBucket key
        { bucket with
          items := bucket.items ++ [entry] }).contents.Perm
      (entry.pair :: map.contents) := by
  rcases entries_perm_bucket hBucket with
    ⟨others, hBefore, hAfter⟩
  have hMove :
      (bucket.items ++ [entry] ++ others).Perm
        (entry :: (bucket.items ++ others)) := by
    rw [List.append_assoc]
    exact List.perm_middle
  have hCons := (hBefore.symm.cons entry)
  exact
    (((hAfter _).trans hMove).trans hCons).map KMapEntry.pair

theorem length_contents (map : KMap) :
    map.contents.length = map.entries.length :=
  List.length_map _

end KMap

end KDoth

------------------------------------------------------------
-- Present And Absent Keys
------------------------------------------------------------

namespace KDoth

namespace KMap

/- No key with the same bucket is equal to the given one. -/
def Absent (map : KMap) (key : KObjectRef) : Prop :=
  ∀ x ∈ map.contents,
    map.bucketIndex x.1 = map.bucketIndex key →
      map.equal key x.1 = false

/- The first equal key of the bucket, and the other pairs. -/
structure Present
    (map : KMap)
    (key : KObjectRef)
    (old : KObjectRef × KObjectRef)
    (rest : List (KObjectRef × KObjectRef)) : Prop where
  contents : map.contents.Perm (old :: rest)
  equal : map.equal key old.1 = true

/- A search that finds nothing means the key is absent. -/
theorem Built.absent
    {map : KMap}
    (hBuilt : map.Built)
    {key : KObjectRef}
    {bucket : KList KMapEntry}
    (hBucket : map.getBucket key = some bucket)
    (hFind : KMapEntry.find? map.equal key bucket.items = none) :
    map.Absent key := by
  intro x hx hIndex
  rcases List.mem_map.mp hx with ⟨entry, hEntry, hEq⟩
  subst hEq
  exact
    KMapEntry.find?_eq_none hFind entry
      (hBuilt.mem_bucket hBucket hEntry hIndex)

/- A search that finds an entry means the key is present. -/
theorem present_of_find
    {map : KMap}
    {key : KObjectRef}
    {bucket : KList KMapEntry}
    (hBucket : map.getBucket key = some bucket)
    {i : Nat}
    {entry : KMapEntry}
    (hFind :
      KMapEntry.find? map.equal key bucket.items =
        some (i, entry)) :
    ∃ rest,
      map.Present key entry.pair rest ∧
        (map.putBucket key
            { bucket with
              items := bucket.items.eraseIdx i }).contents.Perm
          rest ∧
        ∀ changed : KMapEntry,
          (map.putBucket key
              { bucket with
                items :=
                  bucket.items.set i changed }).contents.Perm
            (changed.pair :: rest) := by
  rcases KMapEntry.find?_eq_some hFind with
    ⟨hEntry, hEqual⟩
  rcases contents_perm_found hBucket hEntry with
    ⟨rest, hBefore, hErased, hChanged⟩
  exact ⟨rest, ⟨hBefore, hEqual⟩, hErased, hChanged⟩

end KMap

end KDoth

------------------------------------------------------------
-- Storing
------------------------------------------------------------

namespace KDoth

namespace KMap

/- The functions and the number of buckets are the same. -/
structure SameTable (map map' : KMap) : Prop where
  hash : map'.hash = map.hash
  equal : map'.equal = map.equal
  bucketCount : map'.bucketCount = map.bucketCount

/-
  How storing changes the pairs: the value of the first equal
  key of the bucket is replaced, or the pair is new.
-/
inductive Stored
    (map : KMap)
    (key value : KObjectRef)
    (map' : KMap) : Prop
| found
    (old : KObjectRef × KObjectRef)
    (rest : List (KObjectRef × KObjectRef))
    (hOld : map.Present key old rest)
    (hNew : map'.contents.Perm ((old.1, value) :: rest))
    (hCount : map'.objectCount = map.objectCount)
| fresh
    (hFresh : map.Absent key)
    (hNew : map'.contents.Perm ((key, value) :: map.contents))
    (hCount : map'.objectCount = map.objectCount + 1)

variable {allocator : Allocator} {A : Prop}

/- A new entry holds the key and the value. -/
theorem runs_entry_new
    (key value : KObjectRef) :
    Runs allocator A (KMapEntry.new allocator key value)
      (fun r =>
        (r = none → ∃ n, allocator n = false) ∧
          ∀ entry, r = some entry →
            entry.pair = (key, value)) := by
  refine Runs.bind (Runs.ofObjectNew rfl) ?_
  intro address hAddress
  cases address with
  | none => exact Runs.ret ⟨fun _ => hAddress rfl, by simp⟩
  | some address =>
      apply Runs.bind_retain key
      apply Runs.bind_retain value
      refine Runs.ret ⟨by simp, ?_⟩
      intro entry hEq
      cases hEq
      rfl

/- A changed entry keeps the shape of the map. -/
theorem Shaped.setEntry
    {map : KMap}
    (hShaped : map.Shaped)
    {key : KObjectRef}
    {bucket : KList KMapEntry}
    (hBucket : map.getBucket key = some bucket)
    {i : Nat}
    {entry changed : KMapEntry}
    (hEntry : bucket.items[i]? = some entry)
    (hKey : changed.key = entry.key) :
    (map.putBucket key
        { bucket with
          items := bucket.items.set i changed }).Shaped := by
  have hIndex := hShaped.bucketIndex_of_mem hBucket
  rcases contents_perm_found hBucket hEntry with
    ⟨rest, hBefore, _, hAfter⟩
  constructor
  · apply hShaped.putBucket
    intro other hOther
    rcases List.mem_or_eq_of_mem_set hOther with hOld | hNew
    · exact hIndex other hOld
    · rw [hNew, hKey]
      exact hIndex entry (List.mem_of_getElem? hEntry)
  · rw [objectCount_putBucket, hShaped.count,
      ← length_contents, ← length_contents,
      (hAfter changed).length_eq, hBefore.length_eq,
      List.length_cons, List.length_cons]

/- An appended entry keeps the shape of the map. -/
theorem Shaped.appendEntry
    {map : KMap}
    (hShaped : map.Shaped)
    {bucket : KList KMapEntry}
    {entry : KMapEntry}
    (hBucket : map.getBucket entry.key = some bucket) :
    { map.putBucket entry.key
        { bucket with items := bucket.items ++ [entry] } with
      objectCount := map.objectCount + 1 : KMap }.Shaped := by
  have hIndex := hShaped.bucketIndex_of_mem hBucket
  have hBuilt :
      (map.putBucket entry.key
          { bucket with
            items := bucket.items ++ [entry] }).Built := by
    apply hShaped.putBucket
    intro other hOther
    rcases List.mem_append.mp hOther with hOld | hLast
    · exact hIndex other hOld
    · rw [List.mem_singleton.mp hLast]
  constructor
  · exact ⟨hBuilt.buckets, hBuilt.nonempty, hBuilt.placed⟩
  · change map.objectCount + 1 = _
    have hLength := (contents_perm_append hBucket entry).length_eq
    rw [length_contents, List.length_cons, length_contents]
      at hLength
    rw [hShaped.count]
    exact hLength.symm

theorem runs_setValueNoRehash
    {map : KMap}
    (hShaped : map.Shaped)
    (key value : KObjectRef) :
    Runs allocator A
      (map.setValueNoRehash allocator (some key) (some value))
      (fun r =>
        r.1.Shaped ∧ SameTable map r.1 ∧
          (r.2 = true → Stored map key value r.1) ∧
          (r.2 = false →
            r.1 = map ∧ ∃ n, allocator n = false)) := by
  rcases hShaped.getBucket key with ⟨bucket, hBucket⟩
  simp only [setValueNoRehash, hBucket, KMapEntry.search_eq,
    pure_bind]
  cases hFind : KMapEntry.find? map.equal key bucket.items with
  | some found =>
      rcases found with ⟨i, entry⟩
      have hEntry := (KMapEntry.find?_eq_some hFind).1
      rcases present_of_find hBucket hFind with
        ⟨rest, hPresent, _, hAfter⟩
      by_cases hSame : value = entry.value
      · simp only [hSame, if_true]
        refine
          Runs.ret ⟨hShaped, ⟨rfl, rfl, rfl⟩, ?_, by simp⟩
        intro _
        exact
          .found entry.pair rest hPresent hPresent.contents rfl
      · simp only [hSame, if_false]
        apply Runs.bind_release entry.value trivial
        apply Runs.bind_retain value
        refine
          Runs.ret
            ⟨hShaped.setEntry hBucket hEntry rfl, ?_, ?_,
              by simp⟩
        · exact ⟨by simp, by simp, by simp⟩
        · intro _
          exact
            .found entry.pair rest hPresent
              (hAfter { entry with value := value }) (by simp)
  | none =>
      refine Runs.bind (runs_entry_new key value) ?_
      intro newEntry hNewEntry
      refine Runs.bind (KList.runs_addObject bucket newEntry) ?_
      intro r hr
      rcases r with ⟨grown, added⟩
      refine
        Runs.bind (Runs.releaseOrNull fun _ _ => trivial) ?_
      intro _ _
      cases added with
      | false =>
          refine
            Runs.ret
              ⟨hShaped, ⟨rfl, rfl, rfl⟩, by simp, ?_⟩
          intro _
          rcases (hr.2 rfl).2 with hNull | hNo
          · exact ⟨rfl, hNewEntry.1 hNull⟩
          · exact ⟨rfl, hNo⟩
      | true =>
          rcases hr.1 rfl with ⟨entry, hSome, hGrown⟩
          have hPair := hNewEntry.2 entry hSome
          have hKey : entry.key = key := congrArg Prod.fst hPair
          have hNew := contents_perm_append hBucket entry
          dsimp only at hGrown
          subst hGrown
          have hShaped' := hShaped.appendEntry (hKey ▸ hBucket)
          rw [hKey] at hShaped'
          refine Runs.ret ⟨hShaped', ?_, ?_, by simp⟩
          · exact
              ⟨hash_putBucket _ _ _, equal_putBucket _ _ _,
                bucketCount_putBucket _ _ _⟩
          · intro _
            rw [hPair] at hNew
            exact
              .fresh (hShaped.toBuilt.absent hBucket hFind) hNew
                rfl

end KMap

end KDoth

------------------------------------------------------------
-- Reading And Removing
------------------------------------------------------------

namespace KDoth

namespace KMap

/- Reading returns the value of a present key or NULL. -/
theorem getValue_spec
    {map : KMap}
    (hBuilt : map.Built)
    (key : KObjectRef) :
    (∃ old rest,
        map.Present key old rest ∧
          map.getValue (some key) = some old.2) ∨
      map.Absent key ∧ map.getValue (some key) = none := by
  rcases hBuilt.getBucket key with ⟨bucket, hBucket⟩
  simp only [getValue, hBucket]
  cases hFind : KMapEntry.find? map.equal key bucket.items with
  | some found =>
      rcases found with ⟨i, entry⟩
      rcases present_of_find hBucket hFind with
        ⟨rest, hPresent, _⟩
      exact Or.inl ⟨entry.pair, rest, hPresent, rfl⟩
  | none => exact Or.inr ⟨hBuilt.absent hBucket hFind, rfl⟩

/-
  Removing drops the pair of a present key and nothing else,
  and leaves the map alone when the key is absent.
-/
theorem removeValue_spec
    {map : KMap}
    (hShaped : map.Shaped)
    (key : KObjectRef) :
    (∃ old rest,
        map.Present key old rest ∧
          (map.removeValue (some key)).2 = true ∧
          (map.removeValue (some key)).1.Shaped ∧
          SameTable map (map.removeValue (some key)).1 ∧
          (map.removeValue (some key)).1.contents.Perm rest) ∨
      map.Absent key ∧
        map.removeValue (some key) = (map, false) := by
  rcases hShaped.getBucket key with ⟨bucket, hBucket⟩
  have hIndex := hShaped.bucketIndex_of_mem hBucket
  simp only [removeValue, hBucket]
  cases hFind : KMapEntry.find? map.equal key bucket.items with
  | none =>
      exact Or.inr ⟨hShaped.toBuilt.absent hBucket hFind, rfl⟩
  | some found =>
      rcases found with ⟨i, entry⟩
      have hEntry := (KMapEntry.find?_eq_some hFind).1
      rcases present_of_find hBucket hFind with
        ⟨rest, hPresent, hAfter, _⟩
      simp only [KList.removeObjectAtIndex, hEntry]
      have hBuilt :
          (map.putBucket key
              { bucket with
                items := bucket.items.eraseIdx i }).Built := by
        apply hShaped.putBucket
        intro other hOther
        exact hIndex other (List.mem_of_mem_eraseIdx hOther)
      refine
        Or.inl
          ⟨entry.pair, rest, hPresent, trivial,
            ⟨⟨hBuilt.buckets, hBuilt.nonempty, hBuilt.placed⟩,
              ?_⟩, ⟨?_, ?_, ?_⟩, hAfter⟩
      · change map.objectCount - 1 = _
        have hShort := hAfter.length_eq
        have hLong := hPresent.contents.length_eq
        rw [length_contents] at hShort hLong
        rw [List.length_cons] at hLong
        rw [hShaped.count]
        apply Nat.sub_eq_of_eq_add
        rw [hLong, ← hShort]
        rfl
      · exact hash_putBucket _ _ _
      · exact equal_putBucket _ _ _
      · exact bucketCount_putBucket _ _ _

end KMap

end KDoth
