import KDoth.Map.Ownership
import KDoth.Runtime.Untouched

/-
  A call on a map touches the counts of the objects inside
  the map and of new objects, and no others. In particular it
  does not touch the count of the map itself.

  Key definitions include:
    * `KMap.parts`

  Key theorems include:
    * `KMap.ignores_rehashIfNecessary`
    * `KMap.ignores_setValue`
-/

------------------------------------------------------------
-- Library Objects
------------------------------------------------------------

namespace KDoth

theorem KAllocation.ignores_useBuffer
    {a : Nat}
    (allocation : KAllocation) :
    Ignores a allocation.useBuffer (fun _ => True) := by
  unfold useBuffer
  split
  · exact Ignores.ofStrayed
  · exact Ignores.ret True.intro

theorem KArray.ignores_readElements
    {α : Type}
    {a : Nat}
    (array : KArray α) :
    Ignores a array.readElements (fun _ => True) := by
  unfold readElements
  split
  · exact Ignores.ret True.intro
  · split
    · exact Ignores.ret True.intro
    · exact KAllocation.ignores_useBuffer _

instance : Located KAllocation where
  ignores_retain allocation a hOther :=
    Ignores.ofObjectRetain (by simpa [Owned.addresses] using hOther)
  ignores_release allocation a hOther :=
    Ignores.ofObjectRelease
      (by simpa [Owned.addresses] using hOther)
      allocation.ignores_useBuffer

instance : Located KMapEntry where
  ignores_retain entry a hOther :=
    Ignores.ofObjectRetain (by simpa [Owned.addresses] using hOther)
  ignores_release entry a hOther := by
    apply
      Ignores.ofObjectRelease
        (by simpa [Owned.addresses] using hOther)
    apply Ignores.bind (Ignores.ofRelease entry.key)
    intro _ _
    exact Ignores.ofRelease entry.value

section

variable {α : Type} [KObject α] [Owned α] [Located α]

omit [Located α] in
/- An address outside of all is outside of each. -/
theorem Owned.notMem_addresses
    {a : Nat}
    {l : List α}
    (hOther : a ∉ Owned.allAddresses l) :
    ∀ x ∈ l, a ∉ Owned.addresses x := by
  intro x hx hMem
  exact hOther (List.mem_flatMap.mpr ⟨x, hx, hMem⟩)

instance : Located (KList α) where
  ignores_retain list a hOther := by
    apply Ignores.ofObjectRetain
    intro hEq
    exact hOther (hEq ▸ List.mem_cons_self)
  ignores_release list a hOther := by
    have hOutside := List.ne_and_not_mem_of_not_mem_cons hOther
    apply Ignores.ofObjectRelease hOutside.1
    apply Ignores.bind (R := fun _ => True)
    · apply Ignores.bind (R := fun _ => True)
      · apply Ignores.each
        intro x hx
        exact
          Located.ignores_release x a
            (Owned.notMem_addresses hOutside.2 x hx)
      · intro _ _
        exact Ignores.ret True.intro
    · intro _ _
      exact Ignores.ofAssert

instance : Located (KArray α) where
  ignores_retain array a hOther := by
    apply Ignores.ofObjectRetain
    intro hEq
    exact hOther (hEq ▸ List.mem_cons_self)
  ignores_release array a hOther := by
    have hOutside := List.ne_and_not_mem_of_not_mem_cons hOther
    have hInside := not_or.mp
      (List.mem_append.not.mp hOutside.2)
    have hBuffer :
        Ignores a (KAllocation.getBuffer array.items)
          (fun _ => True) := by
      cases array.items with
      | none => exact Ignores.stop
      | some items => exact Ignores.ret True.intro
    have hClear :
        Ignores a array.removeAllObjects
          (fun r => r.1.items = array.items) := by
      apply Ignores.bind hBuffer
      intro buffer _
      split
      · apply Ignores.bind array.ignores_readElements
        intro _ _
        apply Ignores.bind (R := fun _ => True)
        · apply Ignores.each
          intro x hx
          exact
            Located.ignores_release x a
              (Owned.notMem_addresses hInside.2 x hx)
        · intro _ _
          exact Ignores.ret rfl
      · exact Ignores.stop
    apply Ignores.ofObjectRelease hOutside.1
    apply Ignores.bind hClear
    intro r hr
    apply Located.ignores_releaseOrNull
    rw [hr]
    exact hInside.1

end

namespace KMap

/- The addresses of the objects inside a map. -/
def parts (map : KMap) : List Nat :=
  Owned.allAddresses map.buckets.toList

theorem addresses_eq_cons (map : KMap) :
    Owned.addresses map = map.address :: map.parts :=
  rfl

end KMap

instance : Located KMap where
  ignores_retain map a hOther := by
    apply Ignores.ofObjectRetain
    intro hEq
    exact hOther (hEq ▸ List.mem_cons_self)
  ignores_release map a hOther := by
    have hOutside := List.ne_and_not_mem_of_not_mem_cons hOther
    apply Ignores.ofObjectRelease hOutside.1
    exact Located.ignores_releaseOrNull map.buckets hOutside.2

end KDoth

------------------------------------------------------------
-- Collections
------------------------------------------------------------

namespace KDoth

variable {α : Type} [KObject α] [Owned α] [Located α]
variable {allocator : Allocator} {a : Nat}

omit [Located α] in
theorem KList.ignores_new :
    Ignores a (KList.new (α := α) allocator)
      (fun r => a ∉ Owned.allAddresses r.toList) := by
  apply Ignores.bind_objectNew
  · exact Ignores.ret (by simp)
  · intro address hNe
    apply Ignores.ret
    simpa [Owned.addresses] using hNe

theorem KList.ignores_addObject
    (list : KList α)
    {object : Option α}
    (hList : a ∉ Owned.addresses list)
    (hObject : a ∉ Owned.allAddresses object.toList) :
    Ignores a (list.addObject allocator object)
      (fun r => a ∉ Owned.addresses r.1) := by
  cases object with
  | none => exact Ignores.ret hList
  | some x =>
      apply Ignores.bind Ignores.ofRequest
      intro granted _
      cases granted with
      | false => exact Ignores.ret hList
      | true =>
          have hx : a ∉ Owned.addresses x := by
            simpa using hObject
          apply Ignores.bind (Located.ignores_retain x a hx)
          intro _ _
          apply Ignores.ret
          have hOutside := List.ne_and_not_mem_of_not_mem_cons hList
          simpa [Owned.addresses, hx] using hOutside

theorem KArray.ignores_addObject
    (array : KArray α)
    {x : α}
    (hArray : a ∉ Owned.addresses array)
    (hx : a ∉ Owned.addresses x) :
    Ignores a (array.addObject allocator (some x))
      (fun r => a ∉ Owned.addresses r.1) := by
  unfold addObject
  cases hItems : array.items with
  | none => exact Ignores.ret hArray
  | some items =>
      have hTruncate :
          Ignores a
            (items.truncate allocator
              (grownSize array.getLength))
            (fun r => r.1.address = items.address) := by
        apply Ignores.bind items.ignores_useBuffer
        intro _ _
        apply Ignores.bind Ignores.ofRequest
        intro granted _
        split
        · exact Ignores.ret rfl
        · exact Ignores.ret rfl
      apply Ignores.bind hTruncate
      intro r hr
      rcases r with ⟨grown, truncated⟩
      have hSame : grown.address = items.address := hr
      cases truncated with
      | false =>
          apply Ignores.ret
          simpa [Owned.addresses, hItems, hSame] using hArray
      | true =>
          apply Ignores.bind (Located.ignores_retain x a hx)
          intro _ _
          apply Ignores.ret
          simpa [Owned.addresses, hItems, hSame, hx]
            using hArray

theorem KArray.ignores_new :
    Ignores a (KArray.new (α := α) allocator)
      (fun r => a ∉ Owned.allAddresses r.toList) := by
  have hItems :
      Ignores a (KAllocation.new allocator)
        (fun r => a ∉ Owned.allAddresses r.toList) := by
    apply Ignores.bind_objectNew
    · exact Ignores.ret (by simp)
    · intro address hNe
      apply Ignores.ret
      simpa [Owned.addresses] using hNe
  have hAlloc :
      Ignores a (KArray.alloc (α := α) allocator)
        (fun r => a ∉ Owned.allAddresses r.toList) := by
    apply Ignores.bind_objectNew
    · exact Ignores.ret (by simp)
    · intro address hNe
      apply Ignores.bind hItems
      intro items hOutside
      apply Ignores.ret
      simpa [Owned.addresses, hNe] using hOutside
  apply Ignores.bind hAlloc
  intro r hr
  cases r with
  | none => exact Ignores.ret (by simp)
  | some array =>
      have hArray : a ∉ Owned.addresses array := by
        simpa using hr
      dsimp only
      split
      · apply Ignores.bind
          (Located.ignores_release array a hArray)
        intro _ _
        exact Ignores.ret (by simp)
      · exact Ignores.ret hr

end KDoth

------------------------------------------------------------
-- Creation
------------------------------------------------------------

namespace KDoth

namespace KMap

variable {allocator : Allocator} {a : Nat}

/- A map with no other addresses than an array's. -/
theorem notMem_addresses_buckets
    {map : KMap}
    {buckets : KArray (KList KMapEntry)}
    (hMap : a ≠ map.address)
    (hBuckets : a ∉ Owned.addresses buckets) :
    a ∉
      Owned.addresses { map with buckets := some buckets } := by
  rw [addresses_eq_cons]
  simpa [parts, hMap] using hBuckets

theorem ignores_addBuckets
    (map : KMap)
    (n : Nat)
    {buckets : KArray (KList KMapEntry)}
    (hMap : a ≠ map.address)
    (hBuckets : a ∉ Owned.addresses buckets) :
    Ignores a (map.addBuckets allocator n buckets)
      (fun r => a ∉ Owned.allAddresses r.toList) := by
  induction n generalizing buckets with
  | zero =>
      apply Ignores.ret
      simpa using notMem_addresses_buckets hMap hBuckets
  | succ n ih =>
      unfold addBuckets
      apply Ignores.bind KList.ignores_new
      intro bucket hBucket
      cases bucket with
      | none =>
          apply Ignores.bind
            (Located.ignores_release _ a
              (notMem_addresses_buckets hMap hBuckets))
          intro _ _
          exact Ignores.ret (by simp)
      | some bucket =>
          have hOutside : a ∉ Owned.addresses bucket := by
            simpa using hBucket
          apply Ignores.bind
            (KArray.ignores_addObject buckets hBuckets hOutside)
          intro r hGrown
          rcases r with ⟨grown, added⟩
          apply Ignores.bind
            (Located.ignores_release bucket a hOutside)
          intro _ _
          cases added with
          | true => exact ih hGrown
          | false =>
              apply Ignores.bind
                (Located.ignores_release _ a
                  (notMem_addresses_buckets hMap hGrown))
              intro _ _
              exact Ignores.ret (by simp)

theorem ignores_allocWithBucketCount
    (hash : KObjectRef → UInt64)
    (equal : KObjectRef → KObjectRef → Bool)
    (n : Nat) :
    Ignores a (allocWithBucketCount allocator hash equal n)
      (fun r => a ∉ Owned.allAddresses r.toList) := by
  unfold allocWithBucketCount
  split
  · exact Ignores.ret (by simp)
  · apply Ignores.bind_objectNew
    · exact Ignores.ret (by simp)
    · intro address hNe
      apply Ignores.bind KArray.ignores_new
      intro buckets hBuckets
      cases buckets with
      | none =>
          apply Ignores.bind (R := fun _ => True)
          · apply Located.ignores_release
            rw [addresses_eq_cons]
            simpa [parts] using hNe
          · intro _ _
            exact Ignores.ret (by simp)
      | some buckets =>
          apply ignores_addBuckets _ n hNe
          simpa using hBuckets

end KMap

end KDoth

------------------------------------------------------------
-- Storing
------------------------------------------------------------

namespace KDoth

namespace KMap

variable {allocator : Allocator} {a : Nat}

theorem ignores_entry_new
    (key value : KObjectRef) :
    Ignores a (KMapEntry.new allocator key value)
      (fun r => a ∉ Owned.allAddresses r.toList) := by
  apply Ignores.bind_objectNew
  · exact Ignores.ret (by simp)
  · intro address hNe
    apply Ignores.bind (Ignores.ofRetain key)
    intro _ _
    apply Ignores.bind (Ignores.ofRetain value)
    intro _ _
    apply Ignores.ret
    simpa [Owned.addresses] using hNe

/- The map is the same object, and `a` is not inside it. -/
structure Apart
    (a : Nat)
    (map map' : KMap) : Prop where
  address : map'.address = map.address
  parts : a ∉ map'.parts

theorem Apart.refl
    {map : KMap}
    (hParts : a ∉ map.parts) :
    Apart a map map :=
  ⟨rfl, hParts⟩

theorem Apart.trans
    {map mid map' : KMap}
    (hFirst : Apart a map mid)
    (hSecond : Apart a mid map') :
    Apart a map map' :=
  ⟨hSecond.address.trans hFirst.address, hSecond.parts⟩

/- A bucket is inside its map. -/
theorem notMem_addresses_bucket
    {map : KMap}
    {key : KObjectRef}
    {bucket : KList KMapEntry}
    (hBucket : map.getBucket key = some bucket)
    (hParts : a ∉ map.parts) :
    a ∉ Owned.addresses bucket := by
  have hSlots : a ∉ Owned.allAddresses map.slots := by
    intro hMem
    apply hParts
    unfold slots at hMem
    unfold parts
    cases hBuckets : map.buckets with
    | none => simp [hBuckets] at hMem
    | some buckets =>
        rw [hBuckets] at hMem
        simp [Owned.addresses, hMem]
  rw [getBucket_eq] at hBucket
  exact
    Owned.notMem_addresses hSlots bucket
      (List.mem_of_getElem? hBucket)

/- A changed bucket adds its own addresses. -/
theorem apart_putBucket
    {map : KMap}
    (key : KObjectRef)
    {bucket : KList KMapEntry}
    (hParts : a ∉ map.parts)
    (hBucket : a ∉ Owned.addresses bucket) :
    Apart a map (map.putBucket key bucket) := by
  unfold putBucket
  cases hBuckets : map.buckets with
  | none => exact Apart.refl hParts
  | some buckets =>
      refine ⟨rfl, ?_⟩
      unfold parts at hParts ⊢
      simp only [hBuckets, Option.toList_some,
        Owned.allAddresses_cons, Owned.allAddresses_nil,
        List.append_nil, Owned.addresses, List.mem_cons,
        List.mem_append, not_or] at hParts ⊢
      refine ⟨hParts.1, hParts.2.1, ?_⟩
      intro hMem
      rcases List.mem_flatMap.mp hMem with ⟨other, hSlot, hAt⟩
      rcases List.mem_or_eq_of_mem_set hSlot with hOld | hNew
      · exact
          Owned.notMem_addresses hParts.2.2 other hOld hAt
      · rw [hNew] at hAt
        exact hBucket hAt

/- An entry with another value has the address it had. -/
theorem notMem_addresses_set
    {bucket : KList KMapEntry}
    {i : Nat}
    {entry : KMapEntry}
    (hEntry : bucket.items[i]? = some entry)
    (value : KObjectRef)
    (hBucket : a ∉ Owned.addresses bucket) :
    a ∉
      Owned.addresses
        { bucket with
          items :=
            bucket.items.set i { entry with value := value } } := by
  have hOutside := List.ne_and_not_mem_of_not_mem_cons hBucket
  intro hMem
  rcases List.mem_cons.mp hMem with hEq | hItem
  · exact hOutside.1 hEq
  · rcases List.mem_flatMap.mp hItem with ⟨other, hSet, hAt⟩
    rcases List.mem_or_eq_of_mem_set hSet with hOld | hNew
    · exact Owned.notMem_addresses hOutside.2 other hOld hAt
    · rw [hNew] at hAt
      exact
        Owned.notMem_addresses hOutside.2 entry
          (List.mem_of_getElem? hEntry) hAt

theorem ignores_setValueNoRehash
    (map : KMap)
    (key value : Option KObjectRef)
    (hParts : a ∉ map.parts) :
    Ignores a (map.setValueNoRehash allocator key value)
      (fun r => Apart a map r.1) := by
  have hSame := Apart.refl hParts
  cases value with
  | none => exact Ignores.ret hSame
  | some value =>
      cases key with
      | none => exact Ignores.ret hSame
      | some key =>
          unfold setValueNoRehash
          cases hBucket : map.getBucket key with
          | none =>
              simp only [hBucket]
              exact Ignores.ret hSame
          | some bucket =>
              have hOutside :=
                notMem_addresses_bucket hBucket hParts
              simp only [hBucket, KMapEntry.search_eq,
                pure_bind]
              cases hFind :
                  KMapEntry.find? map.equal key bucket.items with
              | some found =>
                  rcases found with ⟨i, entry⟩
                  rcases KMapEntry.find?_eq_some hFind with
                    ⟨hEntry, _⟩
                  dsimp only
                  split
                  · exact Ignores.ret hSame
                  · apply Ignores.bind
                      (Ignores.ofRelease entry.value)
                    intro _ _
                    apply Ignores.bind (Ignores.ofRetain value)
                    intro _ _
                    apply Ignores.ret
                    exact
                      apart_putBucket key hParts
                        (notMem_addresses_set hEntry value
                          hOutside)
              | none =>
                  apply Ignores.bind (ignores_entry_new key value)
                  intro newEntry hNewEntry
                  apply Ignores.bind
                    (KList.ignores_addObject bucket hOutside
                      hNewEntry)
                  intro r hGrown
                  rcases r with ⟨grown, added⟩
                  apply Ignores.bind
                    (Located.ignores_releaseOrNull newEntry
                      hNewEntry)
                  intro _ _
                  cases added with
                  | true =>
                      have hPut :=
                        apart_putBucket key hParts hGrown
                      exact
                        Ignores.ret ⟨hPut.address, hPut.parts⟩
                  | false => exact Ignores.ret hSame

end KMap

end KDoth

------------------------------------------------------------
-- Growth
------------------------------------------------------------

namespace KDoth

namespace KMap

variable {allocator : Allocator} {a : Nat}

theorem ignores_setValueWith
    {rehash : KMap → Call (KMap × Bool)}
    (hRehash :
      ∀ {map : KMap},
        a ∉ map.parts →
          Ignores a (rehash map) (fun r => Apart a map r.1))
    {map : KMap}
    (key value : Option KObjectRef)
    (hParts : a ∉ map.parts) :
    Ignores a (setValueWith allocator rehash map key value)
      (fun r => Apart a map r.1) := by
  apply Ignores.bind
    (ignores_setValueNoRehash map key value hParts)
  intro r hr
  rcases r with ⟨mid, set⟩
  cases set with
  | false => exact Ignores.ret hr
  | true =>
      apply Ignores.bind (hRehash hr.parts)
      intro r' hr'
      exact Ignores.ret (hr.trans hr')

/- The copying loop, by induction on the entries. -/
theorem ignores_copyEntries
    {setValue :
      KMap → Option KObjectRef → Option KObjectRef →
        Call (KMap × Bool)}
    (hSet :
      ∀ {map : KMap} (key value : Option KObjectRef),
        a ∉ map.parts →
          Ignores a (setValue map key value)
            (fun r => Apart a map r.1))
    (entries : List KMapEntry)
    {newMap : KMap}
    (hParts : a ∉ newMap.parts) :
    Ignores a (copyEntries setValue entries newMap)
      (fun r => Apart a newMap r.1) := by
  induction entries generalizing newMap with
  | nil => exact Ignores.ret (Apart.refl hParts)
  | cons entry entries ih =>
      apply Ignores.bind (hSet _ _ hParts)
      intro r hr
      rcases r with ⟨next, set⟩
      cases set with
      | false => exact Ignores.ret hr
      | true =>
          apply (ih hr.parts).mono
          intro r' hr'
          exact hr.trans hr'

/- By induction on how deep rehashes nest. -/
theorem ignores_rehashIfNecessary
    (depth : Nat)
    {map : KMap}
    (hParts : a ∉ map.parts) :
    Ignores a (rehashIfNecessary allocator depth map)
      (fun r => Apart a map r.1) := by
  have hSame := Apart.refl hParts
  induction depth generalizing map with
  | zero =>
      unfold rehashIfNecessary
      split
      · exact Ignores.ret hSame
      · exact Ignores.stop
  | succ depth ih =>
      have hNested :
          ∀ {next : KMap},
            a ∉ next.parts →
              Ignores a (rehashIfNecessary allocator depth next)
                (fun r => Apart a next r.1) :=
        fun hNext => ih hNext (Apart.refl hNext)
      unfold rehashIfNecessary
      split
      · exact Ignores.ret hSame
      · apply Ignores.bind
          (ignores_allocWithBucketCount map.hash map.equal _)
        intro newMap hNew
        cases newMap with
        | none => exact Ignores.ret hSame
        | some newMap =>
            have hOutside :
                a ≠ newMap.address ∧ a ∉ newMap.parts := by
              apply List.ne_and_not_mem_of_not_mem_cons
              rw [← addresses_eq_cons]
              simpa using hNew
            simp only [copyBuckets_eq]
            apply Ignores.bind
              (ignores_copyEntries (ignores_setValueWith hNested)
                map.entries hOutside.2)
            intro r hr
            rcases r with ⟨filled, copied⟩
            have hAddress : filled.address = newMap.address :=
              hr.address
            have hRelease :
                ∀ other : KMap,
                  other.address = newMap.address →
                    a ∉ other.parts →
                      Ignores a (KObject.release other)
                        (fun _ => True) := by
              intro other hEq hOther
              apply Located.ignores_release
              rw [addresses_eq_cons, hEq]
              exact List.not_mem_cons_of_ne_of_not_mem hOutside.1 hOther
            cases copied with
            | false =>
                apply Ignores.bind
                  (hRelease filled hAddress hr.parts)
                intro _ _
                exact Ignores.ret hSame
            | true =>
                apply Ignores.bind Ignores.ofAssert
                intro _ _
                apply Ignores.bind
                  (hRelease
                    { filled with buckets := map.buckets }
                    hAddress hParts)
                intro _ _
                exact Ignores.ret ⟨rfl, hr.parts⟩

/- `KMapSetValue` touches the inside of its map only. -/
theorem ignores_setValue
    {map : KMap}
    (key value : Option KObjectRef)
    (hParts : a ∉ map.parts) :
    Ignores a (map.setValue allocator key value)
      (fun r => Apart a map r.1) :=
  ignores_setValueWith
    (ignores_rehashIfNecessary (map.objectCount + 1)) key value
    hParts

end KMap

end KDoth
