import KDoth.Objects.KMapObject

/-
  Overwriting a value of a map: `KMapSetValueNoRehash`
  releases the old value before it retains the new one.

  The release deinitializes what hangs below the old value
  alone, whatever the object graph is, and the new value may
  be there.

  Key definitions include:
    * `ObjectGraph.Doomed`
    * `ObjectGraph.ReachBeside`
    * `ObjectGraph.Loosened`
    * `KMapObject.Overwritten`
    * `KMapObject.Overwrites`

  Key theorems include:
    * `ObjectGraph.Loosened.gone_iff`
    * `ObjectGraph.Loosened.stores`
    * `KMapObject.beside_of_private`
    * `KMapObject.stops_of_doomed`
    * `KMapObject.overwrites_iff`
    * `KMapObject.overwrites_rehashed`
-/

------------------------------------------------------------
-- What Goes With A Reference
------------------------------------------------------------

namespace KDoth

namespace Heap

variable {h : Heap} {a o : KObjectRef}

theorem references_of_body
    {body : KObjectBody}
    (hBody : h.body? o = some body) :
    h.references o = body.references := by
  rcases Option.map_eq_some_iff.mp hBody with
    ⟨block, hBlock, hEq⟩
  rw [references, hBlock, ← hEq]

/- Only live objects hold references. -/
theorem isSome_of_mem_references
    (hEdge : o ∈ h.references a) :
    (h.objects a).isSome = true := by
  cases hBlock : h.objects a with
  | none =>
      rw [references, hBlock] at hEdge
      cases hEdge
  | some block => rfl

end Heap

namespace ObjectGraph

open Heap

/- What holds references was allocated. -/
theorem Law.holder_lt
    {s : ObjectGraph}
    {a o : KObjectRef}
    (hLaw : s.Law)
    (hEdge : o ∈ s.heap.references a) :
    a.address < s.heap.nextAddress := by
  rcases hLaw with ⟨g, hAcc⟩
  have hSome := isSome_of_mem_references hEdge
  exact hAcc.bounded a ((hAcc.live a).mpr hSome)

/-
  What is deinitialized when the entry of a map gives up its
  reference to `v`: objects without references of the client
  or the pool to which the entry holds no other reference,
  and which otherwise only such objects hold.
-/
inductive Doomed
    (s : ObjectGraph)
    (entry v : KObjectRef) : KObjectRef → Prop
| held {o : KObjectRef}
    (hRoots : s.roots o = 0)
    (hEntry :
      (s.heap.references entry).count o ≤ [v].count o)
    (hHolders :
      ∀ a, a ≠ entry → o ∈ s.heap.references a →
        Doomed s entry v a) :
    Doomed s entry v o

/-
  Objects that the client can get hold of without going
  through an entry.
-/
inductive ReachBeside
    (s : ObjectGraph)
    (entry : KObjectRef) : KObjectRef → Prop
| root {o : KObjectRef}
    (hRoot : 0 < s.roots o) :
    ReachBeside s entry o
| edge {a o : KObjectRef}
    (hFrom : ReachBeside s entry a)
    (hOther : a ≠ entry)
    (hEdge : o ∈ s.heap.references a) :
    ReachBeside s entry o

/- That is a way to get hold of them. -/
theorem ReachBeside.reach
    {s : ObjectGraph}
    {entry o : KObjectRef}
    (hBeside : s.ReachBeside entry o) :
    s.Reach o := by
  induction hBeside with
  | root hRoot => exact .root hRoot
  | edge _ _ hEdge ih => exact .edge ih hEdge

/-
  The heap after the release of the value that an entry
  holds besides its key. The graph has the key alone, and
  the entry is still to be written.
-/
structure Loosened
    (s : ObjectGraph)
    (entry k v : KObjectRef)
    (h' : Heap)
    (g' : RefGraph KObjectRef) : Prop where
  before :
    ∃ g,
      Accounts (fun _ => False) s.roots s.heap g [] ∧
        g.Rooted s.roots entry ∧ g.out entry = [k, v] ∧
          Shrunk s.heap (g.setOut entry [k]) h' g'
  after :
    Accounts (fun x => x = entry) s.roots h' g' []

namespace Loosened

variable {s : ObjectGraph} {entry k v o : KObjectRef}
variable {h' : Heap} {g' : RefGraph KObjectRef}

/- The entry is rooted, and it holds its key. -/
theorem entry_mem
    (hLoose : Loosened s entry k v h' g') :
    entry ∈ g'.nodes ∧ g'.out entry = [k] := by
  rcases hLoose.before with ⟨g, _, _, _, hShrunk⟩
  constructor
  · exact
      hLoose.after.balanced.mem_of_rooted
        (hLoose.after.rooted entry rfl)
  · rw [hShrunk.out]
    simp [RefGraph.setOut]

/- Other nodes hold what they held. -/
theorem out_eq_references
    (hLoose : Loosened s entry k v h' g')
    {a : KObjectRef}
    (hOther : a ≠ entry)
    (hNode : a ∈ g'.nodes) :
    g'.out a = s.heap.references a := by
  rcases hLoose.before with ⟨g, hAcc, _, _, hShrunk⟩
  rw [hShrunk.out, ← out_eq hAcc (hShrunk.nodes hNode)]
  simp [RefGraph.setOut, hOther]

/- What is gone was doomed, in the order of the cascade. -/
theorem doomed_of_gone
    (hLoose : Loosened s entry k v h' g')
    (hLive : (s.heap.objects o).isSome = true)
    (hGone : o ∉ g'.nodes) :
    s.Doomed entry v o := by
  have hEntry := hLoose.entry_mem
  rcases hLoose.before with ⟨g, hAcc, hRooted, hOut, hShrunk⟩
  have hEntryNode := hAcc.balanced.mem_of_rooted hRooted
  apply hShrunk.order (s.Doomed entry v)
  · intro x hNode hGone hHolders
    have hNone := hLoose.after.balanced.closed x hGone
    rw [List.count_nil, Nat.add_zero] at hNone
    have hNotKey : x ≠ k := by
      intro hEq
      have hEdge : x ∈ g'.out entry := by
        rw [hEntry.2, hEq]
        exact List.mem_singleton_self k
      have hDegree := RefGraph.inDegree_pos hEntry.1 hEdge
      omega
    apply Doomed.held
    · omega
    · rw [← out_eq hAcc hEntryNode, hOut,
        List.count_cons_of_ne (Ne.symm hNotKey)]
    · intro a hOther hEdge
      have hHolder :=
        (hAcc.live a).mpr (isSome_of_mem_references hEdge)
      apply hHolders a hHolder
      rw [← out_eq hAcc hHolder] at hEdge
      simpa [RefGraph.setOut, hOther] using hEdge
  · exact (hAcc.live o).mpr hLive
  · exact hGone

/- What is doomed is gone, by induction on why it is. -/
theorem gone_of_doomed
    (hLoose : Loosened s entry k v h' g')
    (hDoomed : s.Doomed entry v o) :
    o ∉ g'.nodes := by
  have hEntry := hLoose.entry_mem
  induction hDoomed with
  | @held o hRoots hCount _ ih =>
      intro hNode
      have hPositive := hLoose.after.balanced.positive o hNode
      have hSum := hLoose.after.balanced.counts o hNode
      rw [List.count_nil, Nat.add_zero, hRoots,
        Nat.zero_add] at hSum
      rw [hSum] at hPositive
      rcases RefGraph.exists_of_inDegree_pos hPositive with
        ⟨a, hHolder, hEdge⟩
      by_cases hSame : a = entry
      · rw [hSame, hEntry.2, List.mem_singleton] at hEdge
        rcases hLoose.before with ⟨g, hAcc, hRooted, hOut, _⟩
        have hEntryNode :=
          hAcc.balanced.mem_of_rooted hRooted
        rw [← out_eq hAcc hEntryNode, hOut, hEdge,
          List.count_cons_self] at hCount
        omega
      · apply ih a hSame _ hHolder
        rw [← hLoose.out_eq_references hSame hHolder]
        exact hEdge

/- Exactly the doomed objects are deinitialized. -/
theorem gone_iff
    (hLoose : Loosened s entry k v h' g')
    (hLive : (s.heap.objects o).isSome = true) :
    o ∉ g'.nodes ↔ s.Doomed entry v o := by
  constructor
  · exact hLoose.doomed_of_gone hLive
  · exact hLoose.gone_of_doomed

/- What is reached without the entry stays rooted. -/
theorem rooted
    (hLoose : Loosened s entry k v h' g')
    (hBeside : s.ReachBeside entry o) :
    g'.Rooted s.roots o := by
  induction hBeside with
  | root hRoot => exact .root hRoot
  | edge _ hOther hEdge ih =>
      have hNode := hLoose.after.balanced.mem_of_rooted ih
      rw [← hLoose.out_eq_references hOther hNode] at hEdge
      exact .edge ih hNode hEdge

/- No body changed. -/
theorem body
    (hLoose : Loosened s entry k v h' g')
    (hNode : o ∈ g'.nodes) :
    h'.body? o = s.heap.body? o := by
  rcases hLoose.before with ⟨_, _, _, _, hShrunk⟩
  exact hShrunk.body o hNode

/- No count is higher than before. -/
theorem count_le
    (hLoose : Loosened s entry k v h' g')
    (hNode : o ∈ g'.nodes) :
    h'.count o ≤ s.heap.count o := by
  rcases hLoose.before with ⟨g, hAcc, hRooted, hOut, hShrunk⟩
  have hEntryNode := hAcc.balanced.mem_of_rooted hRooted
  have hOld := hAcc.balanced.counts o (hShrunk.nodes hNode)
  have hNew := hLoose.after.balanced.counts o hNode
  have hFewer :=
    RefGraph.inDegree_mono hShrunk.nodes hShrunk.out o
  have hSet :=
    RefGraph.inDegree_setOut_add hEntryNode [k] o
  have hKey : [k].count o ≤ (g.out entry).count o := by
    rw [hOut]
    exact
      (List.singleton_sublist.mpr
        List.mem_cons_self).count_le o
  omega

end Loosened

/- Releasing the value of an entry that can be reached. -/
theorem Law.loosens
    {s : ObjectGraph}
    {entry k v : KObjectRef}
    (hLaw : s.Law)
    (hReach : s.Reach entry)
    (hBody : s.heap.body? entry = some (.object [k, v])) :
    ∃ h' g',
      Heap.objectRelease (some v) s.heap = .ok () h' ∧
        Loosened s entry k v h' g' := by
  rcases hLaw with ⟨g, hAcc⟩
  have hRooted := hReach.rooted hAcc
  have hNode := hAcc.balanced.mem_of_rooted hRooted
  have hOut : g.out entry = [k, v] :=
    Accounts.out_array hAcc hNode hBody
  have hPinned :=
    hAcc.pin hRooted [k] [v]
      (by
        intro x
        rw [hOut, List.count_nil, Nat.add_zero]
        exact List.count_append.symm)
  rcases Command.returns_iff_wp.mpr hPinned.wp_objectRelease
    with ⟨_, h', hRun, g', hShrunk, hAfter⟩
  exact ⟨h', g', hRun, ⟨g, hAcc, hRooted, hOut, hShrunk⟩, hAfter⟩

end ObjectGraph

end KDoth

------------------------------------------------------------
-- The Map Around The Entry
------------------------------------------------------------

namespace KDoth

namespace KMapObject

open Heap

variable {s : ObjectGraph} {h' : Heap} {map : KMapObject}
variable {key entry k v w : KObjectRef}

/- The entry is found among entries that kept their fields. -/
theorem Finds.kept
    {entries : List KObjectRef}
    (hFinds : Finds s.heap map key entries entry k v)
    (hSame :
      ∀ a ∈ entries, a ≠ entry →
        h'.body? a = s.heap.body? a)
    (hEntry : h'.body? entry = some (.object [k, w])) :
    Finds h' map key entries entry k w := by
  induction hFinds with
  | here _ hEqual => exact .here hEntry hEqual
  | @later other k' v' entry k v rest hBody hDiffers hRest ih =>
      have hOther : other ≠ entry := by
        intro hEq
        rw [hEq, hRest.body] at hBody
        cases hBody
        have hEqual := hRest.equal
        rw [hDiffers] at hEqual
        cases hEqual
      have hKept : h'.body? other = some (.object [k', v']) := by
        rw [hSame other List.mem_cons_self hOther, hBody]
      apply Finds.later hKept hDiffers
      apply ih
      · intro a ha
        exact hSame a (List.mem_cons_of_mem _ ha)
      · exact hEntry

/-
  The map and its array of buckets are not the entry, and
  they are reached without it.
-/
theorem Bucket.located_beside
    {bucket : KObjectRef}
    {entries : List KObjectRef}
    (hBucket : Bucket s.heap map key bucket entries)
    (hBody : s.heap.body? entry = some (.object [k, v]))
    (hMap : s.ReachBeside entry map.object) :
    ∃ buckets lists,
      (s.heap.body? map.object = some (.object [buckets]) ∧
        map.object ≠ entry) ∧
      (s.heap.body? buckets = some (.array lists) ∧
        buckets ≠ entry ∧ s.ReachBeside entry buckets) ∧
      lists[(map.hash key).toNat % lists.length]? =
        some bucket := by
  rcases hBucket.located with
    ⟨buckets, lists, hObject, hLists, hAt⟩
  have hMapOther : map.object ≠ entry := by
    intro hEq
    rw [hEq, hBody] at hObject
    cases hObject
  have hBucketsOther : buckets ≠ entry := by
    intro hEq
    rw [hEq, hBody] at hLists
    cases hLists
  have hBuckets : s.ReachBeside entry buckets := by
    apply hMap.edge hMapOther
    rw [references_of_body hObject]
    exact List.mem_singleton_self buckets
  exact
    ⟨buckets, lists, ⟨hObject, hMapOther⟩,
      ⟨hLists, hBucketsOther, hBuckets⟩, hAt⟩

/- So is the bucket. -/
theorem Bucket.beside
    {bucket : KObjectRef}
    {entries : List KObjectRef}
    (hBucket : Bucket s.heap map key bucket entries)
    (hBody : s.heap.body? entry = some (.object [k, v]))
    (hMap : s.ReachBeside entry map.object) :
    bucket ≠ entry ∧ s.ReachBeside entry bucket := by
  rcases hBucket.located_beside hBody hMap with
    ⟨buckets, lists, _, ⟨hLists, hOther, hBuckets⟩, hAt⟩
  constructor
  · intro hEq
    have hList := hBucket.entries
    rw [hEq, hBody] at hList
    cases hList
  · apply hBuckets.edge hOther
    rw [references_of_body hLists]
    exact List.mem_of_getElem? hAt

/- The bucket stays where it is. -/
theorem Bucket.kept
    {bucket : KObjectRef}
    {entries : List KObjectRef}
    (hBucket : Bucket s.heap map key bucket entries)
    (hBody : s.heap.body? entry = some (.object [k, v]))
    (hMap : s.ReachBeside entry map.object)
    (hSame :
      ∀ a, s.ReachBeside entry a → a ≠ entry →
        h'.body? a = s.heap.body? a) :
    Bucket h' map key bucket entries := by
  have hBeside := hBucket.beside hBody hMap
  rcases hBucket.located_beside hBody hMap with
    ⟨buckets, lists, ⟨hObject, hMapOther⟩,
      ⟨hLists, hOther, hBuckets⟩, hAt⟩
  constructor
  · refine ⟨buckets, lists, ?_, ?_, hAt⟩
    · rw [hSame map.object hMap hMapOther, hObject]
    · rw [hSame buckets hBuckets hOther, hLists]
  · rw [hSame bucket hBeside.2 hBeside.1, hBucket.entries]

/- The entry itself is reached without its references. -/
theorem Present.beside
    (hPresent : Present s.heap map key entry k v)
    (hMap : s.ReachBeside entry map.object) :
    s.ReachBeside entry entry := by
  rcases hPresent with ⟨bucket, entries, hBucket, hFinds⟩
  have hBeside := hBucket.beside hFinds.body hMap
  apply hBeside.2.edge hBeside.1
  rw [references_of_body hBucket.entries]
  exact hFinds.mem

/-
  A map that can be reached at all is reached without the
  entry, if each of its parts is held by the part before and
  by nothing else.
-/
theorem beside_of_private
    {bucket buckets : KObjectRef}
    (hMap : s.Reach map.object)
    (hRoots :
      s.roots entry = 0 ∧ s.roots bucket = 0 ∧
        s.roots buckets = 0)
    (hEntry :
      ∀ a, entry ∈ s.heap.references a → a = bucket)
    (hBucket :
      ∀ a, bucket ∈ s.heap.references a → a = buckets)
    (hBuckets :
      ∀ a, buckets ∈ s.heap.references a → a = map.object) :
    s.ReachBeside entry map.object := by
  have hEither :
      ∀ x, s.Reach x →
        s.ReachBeside entry x ∨
          s.ReachBeside entry map.object := by
    intro x hx
    induction hx with
    | root hRoot => exact Or.inl (.root hRoot)
    | @edge a x _ hEdge ih =>
        rcases ih with hBeside | hDone
        · by_cases hSame : a = entry
          · -- The way to the entry goes through the map.
            rw [hSame] at hBeside
            right
            cases hBeside with
            | root hRoot => omega
            | edge hFrom _ hEdge =>
                rw [hEntry _ hEdge] at hFrom
                cases hFrom with
                | root hRoot => omega
                | edge hFrom _ hEdge =>
                    rw [hBucket _ hEdge] at hFrom
                    cases hFrom with
                    | root hRoot => omega
                    | edge hFrom _ hEdge =>
                        rw [hBuckets _ hEdge] at hFrom
                        exact hFrom
          · exact Or.inl (hBeside.edge hSame hEdge)
        · exact Or.inr hDone
  rcases hEither map.object hMap with hBeside | hBeside
  · exact hBeside
  · exact hBeside

/- The key stays present, with another value. -/
theorem Present.kept
    (hPresent : Present s.heap map key entry k v)
    (hMap : s.ReachBeside entry map.object)
    (hSame :
      ∀ a, s.ReachBeside entry a → a ≠ entry →
        h'.body? a = s.heap.body? a)
    (hEntry : h'.body? entry = some (.object [k, w])) :
    Present h' map key entry k w := by
  rcases hPresent with ⟨bucket, entries, hBucket, hFinds⟩
  have hBeside := hBucket.beside hFinds.body hMap
  refine
    ⟨bucket, entries, hBucket.kept hFinds.body hMap hSame,
      hFinds.kept ?_ hEntry⟩
  intro a ha hOther
  apply hSame a _ hOther
  apply hBeside.2.edge hBeside.1
  rw [references_of_body hBucket.entries]
  exact ha

end KMapObject

end KDoth

------------------------------------------------------------
-- Storing A Live Value
------------------------------------------------------------

namespace KDoth

namespace Heap

open Command

variable {h : Heap} {o : KObjectRef}

theorem setBody_apply
    {block : KControlBlock}
    (hBlock : h.objects o = some block)
    (body : KObjectBody) :
    setBody o body h =
      .ok () (h.put o (some { block with body := body })) := by
  unfold setBody
  rw [bind_of_ok (read_apply hBlock)]
  rfl

theorem setEntryValue_apply
    {k v : KObjectRef}
    (hBody : h.body? o = some (.object [k, v]))
    (w : KObjectRef) :
    setEntryValue o w h = setBody o (.object [k, w]) h := by
  unfold setEntryValue
  rw [bind_of_ok (entryFields_apply hBody)]

/- Retaining what was freed stops. -/
theorem objectRetain_freed
    (hFreed : h.objects o = none) :
    objectRetain (some o) h = .error .useAfterFree h := by
  have hRead : read o h = .error .useAfterFree h := by
    have hGet : (get : HeapCall Heap) h = .ok h h := rfl
    unfold read
    rw [bind_of_ok hGet, hFreed]
    rfl
  unfold objectRetain
  exact bind_of_error hRead

end Heap

namespace KMapObject

open Command Heap

/-
  The heap after an overwrite: the value is live, its count
  is the number of references to it, the entry for the key
  holds it, with one more reference to it and one less to
  the old value, and other live objects hold what they held.
-/
structure Overwritten
    (s : ObjectGraph)
    (map : KMapObject)
    (key entry k v w : KObjectRef)
    (h' : Heap) : Prop where
  law : ObjectGraph.Law { heap := h', held := s.held }
  live : (h'.objects w).isSome = true
  alive : w ∉ h'.deInits
  count :
    h'.count w =
      ObjectGraph.holders { heap := h', held := s.held } w
  present : Present h' map key entry k w
  owned :
    ∀ o,
      (h'.references entry).count o + [v].count o =
        (s.heap.references entry).count o + [w].count o
  others :
    ∀ a, a ≠ entry → (h'.objects a).isSome = true →
      h'.body? a = s.heap.body? a

/-
  `KMapSetValue` overwrites the value and gets to the rehash,
  whatever that is.
-/
def Overwrites
    (s : ObjectGraph)
    (map : KMapObject)
    (key entry k v w : KObjectRef)
    (answers : EntryAnswers) : Prop :=
  ∃ h',
    (∀ rehash,
      mapSetValueWith rehash map (some key) (some w) answers
          s.heap =
        (do
          let (map, _) ← rehash map
          pure (map, true) :
          HeapCall (KMapObject × Bool)) h') ∧
      Overwritten s map key entry k v w h'

end KMapObject

end KDoth

------------------------------------------------------------
-- When The Value Is Live
------------------------------------------------------------

namespace KDoth

namespace ObjectGraph

open Command Heap

variable {s : ObjectGraph} {entry k v w : KObjectRef}

/- The value that is left is retained and stored. -/
theorem Loosened.stores
    {h' : Heap}
    {g' : RefGraph KObjectRef}
    (hLoose : Loosened s entry k v h' g')
    (hBody : s.heap.body? entry = some (.object [k, v]))
    (hNode : w ∈ g'.nodes)
    (hRoom : s.heap.count w + 1 < 2 ^ 32) :
    ∃ retained h'',
      Heap.objectRetain (some w) h' = .ok () retained ∧
        setEntryValue entry w retained = .ok () h'' ∧
        h''.tPool = s.heap.tPool ∧
        Accounts (fun _ => False) s.roots h''
          (g'.setOut entry [k, w]) [] ∧
        h''.body? entry = some (.object [k, w]) ∧
        ∀ a ∈ g'.nodes, a ≠ entry →
          h''.body? a = s.heap.body? a := by
  have hEntry := hLoose.entry_mem
  have hLess := hLoose.count_le hNode
  rcases returns_iff_wp.mpr
      (hLoose.after.wp_objectRetain hNode (by omega)) with
    ⟨_, retained, hRetain, hAcc, hSame, hPool⟩
  have hPool : retained.tPool = s.heap.tPool := by
    rcases hLoose.before with ⟨_, _, _, _, hShrunk⟩
    rw [hPool, hShrunk.tPool]
  have hKept :
      retained.body? entry = some (.object [k, v]) := by
    rw [hSame, hLoose.body hEntry.1, hBody]
  have hPinned :=
    hAcc.setOut (fun _ hx => hx) (hAcc.rooted entry rfl)
      [k, w] [] (by
        intro x
        rw [hEntry.2, List.count_nil, Nat.add_zero]
        change ([k] ++ [w]).count x = _
        exact List.count_append)
  have hNotPool :
      retained.tPool = some entry →
        ∃ items, KObjectBody.object [k, w] =
          .array items := by
    intro hp
    rcases (hAcc.pool entry hp).2 with ⟨items, hArray⟩
    rw [hKept] at hArray
    cases hArray
  rcases Option.map_eq_some_iff.mp hKept with
    ⟨block, hBlock, _⟩
  have hSet := setBody_apply hBlock (.object [k, w])
  have hOut :
      (g'.setOut entry [k, w]).out entry =
        (KObjectBody.object [k, w]).references := by
    simp [RefGraph.setOut, KObjectBody.references]
  rcases returns_iff_wp.mpr
      (hPinned.wp_setBody (.object [k, w]) hOut hNotPool) with
    ⟨_, h'', hRun, hDone, hPool'⟩
  rw [hSet] at hRun
  injection hRun with _ hEq
  subst hEq
  refine
    ⟨retained, _, hRetain, ?_, hPool'.trans hPool, hDone, ?_,
      ?_⟩
  · rw [setEntryValue_apply hKept, hSet]
  · simp [body?]
  · intro a ha hOther
    rw [put_body?_of_ne _ hOther, hSame, hLoose.body ha]

/- An object of the accounts is live and counted right. -/
theorem counted_of_mem
    {g : RefGraph KObjectRef}
    (hAcc : Accounts (fun _ => False) s.roots s.heap g [])
    (hNode : w ∈ g.nodes) :
    (s.heap.objects w).isSome = true ∧ w ∉ s.heap.deInits ∧
      s.heap.count w = s.holders w := by
  have hLive := (hAcc.live w).mp hNode
  refine ⟨hLive, ?_, ?_⟩
  · intro hDead
    rw [((hAcc.dead w).mp hDead).2] at hLive
    cases hLive
  · have hCount := hAcc.balanced.counts w hNode
    rw [List.count_nil, Nat.add_zero] at hCount
    rw [holders_eq hAcc]
    exact hCount

end ObjectGraph

namespace KMapObject

open Command Heap ObjectGraph

variable {s : ObjectGraph} {map : KMapObject}
variable {key entry k v w : KObjectRef}

/- What is live in the accounts, with the entry written. -/
theorem Overwritten.of_accounts
    {h' : Heap}
    {g : RefGraph KObjectRef}
    (hAcc : Accounts (fun _ => False) s.roots h' g [])
    (hPool : h'.tPool = s.heap.tPool)
    (hNode : w ∈ g.nodes)
    (hBefore : s.heap.body? entry = some (.object [k, v]))
    (hPresent : Present h' map key entry k w)
    (hOthers :
      ∀ a ∈ g.nodes, a ≠ entry →
        h'.body? a = s.heap.body? a) :
    Overwritten s map key entry k v w h' := by
  have hRoots :
      ObjectGraph.roots { heap := h', held := s.held } =
        s.roots := by
    unfold ObjectGraph.roots
    rw [hPool]
  have hAcc' := hAcc
  rw [← hRoots] at hAcc'
  rcases
      counted_of_mem
        (s := { heap := h', held := s.held }) hAcc' hNode with
    ⟨hLive, hAlive, hCount⟩
  constructor
  · exact ⟨g, hAcc'⟩
  · exact hLive
  · exact hAlive
  · exact hCount
  · exact hPresent
  · intro o
    rw [references_of_body hPresent.body,
      references_of_body hBefore]
    simp only [KObjectBody.references, List.count_cons,
      List.count_nil]
    omega
  · intro a hOther hSome
    exact hOthers a ((hAcc.live a).mpr hSome) hOther

/- Setting the value that is there already. -/
theorem overwrites_same
    (hLaw : s.Law)
    (hReach : s.Reach entry)
    (hPresent : Present s.heap map key entry k v)
    (answers : EntryAnswers) :
    Overwrites s map key entry k v v answers := by
  rcases hLaw with ⟨g, hAcc⟩
  have hRun := hPresent.setValueNoRehash_apply v answers
  rw [if_pos rfl] at hRun
  have hEntry :=
    hAcc.balanced.mem_of_rooted (hReach.rooted hAcc)
  have hNode : v ∈ g.nodes := by
    apply hAcc.balanced.mem_of_rooted
    apply (hReach.rooted hAcc).edge hEntry
    rw [out_eq hAcc hEntry, references_of_body hPresent.body]
    simp [KObjectBody.references]
  exact
    ⟨s.heap, setValueWith_of_ok hRun,
      .of_accounts hAcc rfl hNode hPresent.body hPresent
        fun _ _ _ => rfl⟩

/-
  A value that goes with the old one is retained after it
  was freed.
-/
theorem stops_of_doomed
    (hLaw : s.Law)
    (hMap : s.ReachBeside entry map.object)
    (hPresent : Present s.heap map key entry k v)
    (hLive : (s.heap.objects w).isSome = true)
    (hOther : w ≠ v)
    (hDoomed : s.Doomed entry v w)
    (answers : EntryAnswers) :
    ∃ h',
      w ∈ h'.deInits ∧
        mapSetValueNoRehash map (some key) (some w) answers
            s.heap =
          .error .useAfterFree h' := by
  have hReach := (hPresent.beside hMap).reach
  rcases hLaw.loosens hReach hPresent.body with
    ⟨h', g', hRelease, hLoose⟩
  have hGone := hLoose.gone_of_doomed hDoomed
  rcases hLoose.before with ⟨g, hAcc, _, _, hShrunk⟩
  have hNode : w ∈ g.nodes := (hAcc.live w).mpr hLive
  have hFreed := hShrunk.freed w hNode hGone
  refine ⟨h', ?_, ?_⟩
  · rw [hLoose.after.dead, hShrunk.nextAddress]
    exact ⟨hAcc.bounded w hNode, hFreed⟩
  · rw [hPresent.setValueNoRehash_apply w answers,
      if_neg hOther, bind_of_ok hRelease]
    exact bind_of_error (objectRetain_freed hFreed)

/-
  `KMapSetValue` on a key that is present leaves the new
  value live, with the references the counts say, if and only
  if the value is the old one or does not go with it.
-/
theorem overwrites_iff
    (s : ObjectGraph)
    (hLaw : s.Law)
    (map : KMapObject)
    (key entry k v w : KObjectRef)
    (hMap : s.ReachBeside entry map.object)
    (hPresent : Present s.heap map key entry k v)
    (hLive : (s.heap.objects w).isSome = true)
    (hRoom : s.Room w)
    (answers : EntryAnswers) :
    Overwrites s map key entry k v w answers ↔
      w = v ∨ ¬ s.Doomed entry v w := by
  have hReach := (hPresent.beside hMap).reach
  by_cases hOther : w = v
  · subst hOther
    constructor
    · intro _
      exact Or.inl rfl
    · intro _
      exact overwrites_same hLaw hReach hPresent answers
  constructor
  · intro hOverwrites
    right
    intro hDoomed
    rcases hOverwrites with ⟨h', hRun, _⟩
    rcases
        stops_of_doomed hLaw hMap hPresent hLive hOther hDoomed
          answers with
      ⟨stopped, _, hStop⟩
    have hEq := hRun fun map => pure (map, true)
    rw [setValueWith_of_error hStop] at hEq
    cases hEq
  · intro hKeeps
    rcases hLaw.loosens hReach hPresent.body with
      ⟨h', g', hRelease, hLoose⟩
    have hNode : w ∈ g'.nodes := by
      by_contra hGone
      rcases hKeeps with hEq | hNot
      · exact hOther hEq
      · exact hNot (hLoose.doomed_of_gone hLive hGone)
    have hCount : s.heap.count w + 1 < 2 ^ 32 := by
      rcases hLoose.before with ⟨g, hAcc, _, _, hShrunk⟩
      exact hRoom.count hAcc (hShrunk.nodes hNode)
    rcases hLoose.stores hPresent.body hNode hCount with
      ⟨retained, h'', hRetain, hSet, hPool, hDone, hEntry,
        hSame⟩
    have hRun := hPresent.setValueNoRehash_apply w answers
    rw [if_neg hOther, bind_of_ok hRelease,
      bind_of_ok hRetain, bind_of_ok hSet] at hRun
    have hKept : Present h'' map key entry k w := by
      apply hPresent.kept hMap _ hEntry
      intro a ha hOther
      apply hSame a _ hOther
      exact hLoose.after.balanced.mem_of_rooted (hLoose.rooted ha)
    exact
      ⟨h'', setValueWith_of_ok hRun,
        .of_accounts hDone hPool hNode hPresent.body hKept hSame⟩

/- What a map that can be reached holds for a key is live. -/
theorem Present.counted
    (hLaw : s.Law)
    (hMap : s.Reach map.object)
    (hPresent : Present s.heap map key entry k w) :
    (s.heap.objects w).isSome = true ∧ w ∉ s.heap.deInits ∧
      s.heap.count w = s.holders w := by
  rcases hLaw with ⟨g, hAcc⟩
  rcases hPresent with ⟨bucket, entries, hBucket, hFinds⟩
  rcases hBucket.located with
    ⟨buckets, lists, hObject, hLists, hAt⟩
  have hBuckets : s.Reach buckets := by
    apply hMap.edge
    rw [references_of_body hObject]
    exact List.mem_singleton_self buckets
  have hList : s.Reach bucket := by
    apply hBuckets.edge
    rw [references_of_body hLists]
    exact List.mem_of_getElem? hAt
  have hEntry : s.Reach entry := by
    apply hList.edge
    rw [references_of_body hBucket.entries]
    exact hFinds.mem
  have hValue : s.Reach w := by
    apply hEntry.edge
    rw [references_of_body hFinds.body]
    simp [KObjectBody.references]
  exact
    counted_of_mem hAcc
      (hAcc.balanced.mem_of_rooted (hValue.rooted hAcc))

/-
  With a rehash that keeps the counts, the client's reference
  to the map and the value of the key, as it does when it
  moves the entries to new buckets or gives up, the call
  leaves the value live and counted right.
-/
theorem overwrites_rehashed
    {rehash : KMapObject → HeapCall (KMapObject × Bool)}
    {answers : EntryAnswers}
    (hOverwrites : Overwrites s map key entry k v w answers)
    (hRehash :
      ∀ h', Overwritten s map key entry k v w h' →
        ∃ after grown h'' entry' k',
          rehash map h' = .ok (after, grown) h'' ∧
            ObjectGraph.Law { heap := h'', held := s.held } ∧
            ObjectGraph.Reach { heap := h'', held := s.held }
              after.object ∧
            Present h'' after key entry' k' w) :
    ∃ after h'',
      mapSetValueWith rehash map (some key) (some w) answers
          s.heap =
        .ok (after, true) h'' ∧
        (h''.objects w).isSome = true ∧ w ∉ h''.deInits ∧
          h''.count w =
            ObjectGraph.holders { heap := h'', held := s.held }
              w := by
  rcases hOverwrites with ⟨h', hRun, hWritten⟩
  rcases hRehash h' hWritten with
    ⟨after, grown, h'', entry', k', hRehashed, hLaw, hMap,
      hPresent⟩
  refine ⟨after, h'', ?_, ?_⟩
  · rw [hRun rehash, bind_of_ok hRehashed]
    rfl
  · exact
      Present.counted (s := { heap := h'', held := s.held })
        hLaw hMap hPresent

end KMapObject

end KDoth

------------------------------------------------------------
-- A Value Below The Old One
------------------------------------------------------------

namespace KDoth

namespace KMapObject

open Heap ObjectGraph

/-
  A map from `⟨2⟩` to an array `⟨1⟩` whose element `⟨0⟩` has
  no other reference, and an object `⟨7⟩` of the client.
-/
def nestedCalls : List ObjectCall :=
  [ .objectNew [] true,
    .arrayNew true true,
    .arrayAddObject (some ⟨1⟩) (some ⟨0⟩) true,
    .objectRelease (some ⟨0⟩),
    .objectNew [] true,
    .objectNew [⟨2⟩, ⟨1⟩] true,
    .listNew true,
    .listAddObject (some ⟨4⟩) (some ⟨3⟩) true,
    .objectRelease (some ⟨3⟩),
    .arrayNew true true,
    .arrayAddObject (some ⟨5⟩) (some ⟨4⟩) true,
    .objectRelease (some ⟨4⟩),
    .objectNew [⟨5⟩] true,
    .objectNew [] true ]

def nested : ObjectGraph :=
  (objectGraph.exec ObjectGraph.initial nestedCalls).getD
    ObjectGraph.initial

def nestedMap : KMapObject where
  object := ⟨6⟩
  hash := fun _ => 0
  equal := fun a b => a == b
  objectCount := 1

/- Containers and objects that the client holds. -/
theorem allowed_arrayAddObject
    {s : ObjectGraph}
    {array object : KObjectRef}
    (items : List KObjectRef)
    (hArray : 0 < s.roots array)
    (hBody : s.heap.body? array = some (.array items))
    (hShort : items.length + 1 < 2 ^ 28)
    (hObject : 0 < s.roots object)
    (hRoom : s.Room object) :
    (ObjectCall.arrayAddObject (some array) (some object)
      true).Allowed s := by
  constructor
  · intro a ha
    cases ha
    refine ⟨.root hArray, ⟨items, hBody⟩, ?_⟩
    intro other hOther
    rw [hBody] at hOther
    cases hOther
    exact hShort
  · intro x hx
    cases hx
    exact ⟨.root hObject, hRoom⟩

theorem allowed_objectRelease
    {s : ObjectGraph}
    {object : KObjectRef}
    (hHeld : 0 < s.held object) :
    (ObjectCall.objectRelease (some object)).Allowed s := by
  intro x hx
  cases hx
  exact hHeld

/- The fields of a new object are held. -/
theorem allowed_objectNew
    {s : ObjectGraph}
    {fields : List KObjectRef}
    (hNodup : fields.Nodup)
    (hHeld : ∀ x ∈ fields, 0 < s.held x) :
    (ObjectCall.objectNew fields true).Allowed s := by
  intro x
  by_cases hMem : x ∈ fields
  · rw [List.count_eq_one_of_mem hNodup hMem]
    exact hHeld x hMem
  · rw [List.count_eq_zero_of_not_mem hMem]
    exact Nat.zero_le _

/- The map is made by calls of a client. -/
theorem nested_reachable :
    objectGraph.ReachableWhere (fun s c => c.Allowed s)
      nested := by
  have hStart :
      objectGraph.ReachableWhere (fun s c => c.Allowed s)
        ObjectGraph.initial :=
    .init ⟨rfl, fun _ => rfl⟩
  have hElement :=
    hStart.step (l := ObjectCall.objectNew [] true)
      (allowed_objectNew (by decide) (by decide)) rfl
  have hArray :=
    hElement.step (l := ObjectCall.arrayNew true true)
      (fun h => h) rfl
  have hAdded :=
    hArray.step
      (l := ObjectCall.arrayAddObject (some ⟨1⟩) (some ⟨0⟩) true)
      (allowed_arrayAddObject [] (by decide) rfl (by decide)
        (by decide) (by decide)) rfl
  have hBelow :=
    hAdded.step (l := ObjectCall.objectRelease (some ⟨0⟩))
      (allowed_objectRelease (by decide)) rfl
  have hKey :=
    hBelow.step (l := ObjectCall.objectNew [] true)
      (allowed_objectNew (by decide) (by decide)) rfl
  have hEntry :=
    hKey.step (l := ObjectCall.objectNew [⟨2⟩, ⟨1⟩] true)
      (allowed_objectNew (by decide) (by decide)) rfl
  have hBucket :=
    hEntry.step (l := ObjectCall.listNew true) trivial rfl
  have hListed :=
    hBucket.step
      (l := ObjectCall.listAddObject (some ⟨4⟩) (some ⟨3⟩) true)
      (by
        constructor
        · intro a ha
          cases ha
          exact ⟨.root (by decide), [], rfl⟩
        · intro x hx
          cases hx
          exact ⟨.root (by decide), by decide⟩) rfl
  have hOwned :=
    hListed.step (l := ObjectCall.objectRelease (some ⟨3⟩))
      (allowed_objectRelease (by decide)) rfl
  have hBuckets :=
    hOwned.step (l := ObjectCall.arrayNew true true)
      (fun h => h) rfl
  have hFilled :=
    hBuckets.step
      (l := ObjectCall.arrayAddObject (some ⟨5⟩) (some ⟨4⟩) true)
      (allowed_arrayAddObject [] (by decide) rfl (by decide)
        (by decide) (by decide)) rfl
  have hShared :=
    hFilled.step (l := ObjectCall.objectRelease (some ⟨4⟩))
      (allowed_objectRelease (by decide)) rfl
  have hMap :=
    hShared.step (l := ObjectCall.objectNew [⟨5⟩] true)
      (allowed_objectNew (by decide) (by decide)) rfl
  exact
    hMap.step (l := ObjectCall.objectNew [] true)
      (allowed_objectNew (by decide) (by decide)) rfl

theorem nested_present :
    Present nested.heap nestedMap ⟨2⟩ ⟨3⟩ ⟨2⟩ ⟨1⟩ :=
  ⟨⟨4⟩, [⟨3⟩], ⟨⟨⟨5⟩, [⟨4⟩], rfl, rfl, rfl⟩, rfl⟩,
    .here rfl rfl⟩

/- Replacing an array by an object that the client holds. -/
theorem overwrites_held :
    Overwrites nested nestedMap ⟨2⟩ ⟨3⟩ ⟨2⟩ ⟨1⟩ ⟨7⟩
      { entry := true, listEntry := true } := by
  have hLaw := Law.of_reachable nested_reachable
  have hMap : nested.ReachBeside ⟨3⟩ nestedMap.object :=
    .root (by decide)
  apply
    (overwrites_iff nested hLaw nestedMap ⟨2⟩ ⟨3⟩ ⟨2⟩ ⟨1⟩ ⟨7⟩
      hMap nested_present rfl (by decide) _).mpr
  right
  intro hDoomed
  cases hDoomed with
  | held hRoots => exact absurd hRoots (by decide)

/- The element of the array goes with the array. -/
theorem nested_doomed :
    nested.Doomed ⟨3⟩ ⟨1⟩ ⟨0⟩ := by
  have hLaw := Law.of_reachable nested_reachable
  apply Doomed.held rfl (by decide)
  intro a _ hEdge
  have hLt : a.address < 8 := hLaw.holder_lt hEdge
  have hElement :
      ∀ n < 8,
        ⟨0⟩ ∈ nested.heap.references ⟨n⟩ → n = 1 := by
    decide
  obtain rfl : a = ⟨1⟩ :=
    congrArg KObjectRef.mk (hElement a.address hLt hEdge)
  apply Doomed.held rfl (by decide)
  intro a hOther hEdge
  have hLt : a.address < 8 := hLaw.holder_lt hEdge
  have hValue :
      ∀ n < 8,
        ⟨1⟩ ∈ nested.heap.references ⟨n⟩ → n = 3 := by
    decide
  exact
    absurd (congrArg KObjectRef.mk (hValue a.address hLt hEdge))
      hOther

/-
  Replacing the array by its element retains the element
  after it was freed, whatever the rehash is.
-/
theorem overwrite_retains_freed :
    objectGraph.ReachableWhere (fun s c => c.Allowed s) nested ∧
      nested.ReachBeside ⟨3⟩ nestedMap.object ∧
      Present nested.heap nestedMap ⟨2⟩ ⟨3⟩ ⟨2⟩ ⟨1⟩ ∧
      nested.Reach ⟨0⟩ ∧
      (nested.heap.objects ⟨0⟩).isSome = true ∧
      nested.Room ⟨0⟩ ∧
      ∀ answers,
        ¬ Overwrites nested nestedMap ⟨2⟩ ⟨3⟩ ⟨2⟩ ⟨1⟩ ⟨0⟩
            answers ∧
          ∀ rehash,
            ∃ h',
              ⟨0⟩ ∈ h'.deInits ∧
                mapSetValueWith rehash nestedMap (some ⟨2⟩)
                    (some ⟨0⟩) answers nested.heap =
                  .error .useAfterFree h' := by
  have hLaw := Law.of_reachable nested_reachable
  have hMap : nested.ReachBeside ⟨3⟩ nestedMap.object :=
    .root (by decide)
  have hEntry := (nested_present.beside hMap).reach
  have hArray : nested.Reach ⟨1⟩ := hEntry.edge (by decide)
  have hElement : nested.Reach ⟨0⟩ := hArray.edge (by decide)
  refine
    ⟨nested_reachable, hMap, nested_present, hElement, rfl,
      by decide, ?_⟩
  intro answers
  rcases
      stops_of_doomed hLaw hMap nested_present rfl (by decide)
        nested_doomed answers with
    ⟨h', hFreed, hStop⟩
  constructor
  · intro hOverwrites
    rcases hOverwrites with ⟨_, hRun, _⟩
    have hEq := hRun fun map => pure (map, true)
    rw [setValueWith_of_error hStop] at hEq
    cases hEq
  · intro rehash
    exact ⟨h', hFreed, setValueWith_of_error hStop rehash⟩

end KMapObject

end KDoth
