import KDoth.Collections.Strays
import KDoth.Map.Ownership

/-
  Maps that lose the buffer of their buckets.

  The buckets of a map are only added while it is built. When
  that frees their buffer the map is given up at once, and the
  buckets are read to release them. So a call on a map uses a
  freed buffer exactly if it is granted a request that shrinks
  a block to nothing.

  Key definitions include:
    * `KMap.Unfreed`

  Key theorems include:
    * `KMap.tells_allocWithBucketCount`
    * `KMap.tells_rehashIfNecessary`
    * `KMap.tells_setValue`
-/

------------------------------------------------------------
-- Entries And Maps
------------------------------------------------------------

namespace KDoth

open Command

instance : SteadyObject KMapEntry where
  tells_retain _ _ := Tells.ofObjectRetain
  tells_release allocator entry := by
    apply Tells.ofObjectRelease
    apply Evolves.bind
      (SteadyObject.tells_release allocator entry.key)
    intro _ _
    exact SteadyObject.tells_release allocator entry.value

namespace KMap

variable {allocator : Allocator}
variable {own : List Nat} {L : Ledger} {p : Process}

/- The buffer of the buckets was not freed. -/
def Unfreed (map : KMap) : Prop :=
  ∀ buckets, map.buckets = some buckets → buckets.Unfreed

theorem unfreed_some
    {map : KMap}
    {buckets : KArray (KList KMapEntry)}
    (hUnfreed : buckets.Unfreed) :
    Unfreed { map with buckets := some buckets } := by
  intro array hEq
  cases hEq
  exact hUnfreed

theorem tells_release
    {map : KMap}
    (hUnfreed : map.Unfreed) :
    Tells allocator (KObject.release map) (fun _ => True) := by
  apply Tells.ofObjectRelease
  unfold deInit
  cases hBuckets : map.buckets with
  | none => exact Evolves.ret True.intro
  | some buckets =>
      exact KArray.tells_release (hUnfreed buckets hBuckets)

/- A map with lost buckets is released by its only owner. -/
theorem wp_release_lost
    {map : KMap}
    {buckets : KArray (KList KMapEntry)}
    (allocator : Allocator)
    (hLost : buckets.Lost)
    (hHas : Has { map with buckets := some buckets } own L p) :
    wp (KObject.release { map with buckets := some buckets })
      (fun _ q =>
        q.stray = true ∧
          List.IsPrefix p.requests q.requests)
      (fun _ q =>
        q.stray = true ∧
          List.IsPrefix p.requests q.requests) p := by
  have hMap : p.refCount map.address = 1 :=
    (hHas.unique map.address (by simp [Owned.addresses])).2
  have hBuckets : p.refCount buckets.address = 1 :=
    (hHas.unique buckets.address
      (by simp [Owned.addresses])).2
  have hNe : buckets.address ≠ map.address := by
    have hNodup := hHas.nodup
    simp only [Owned.addresses, Option.toList_some,
      Owned.allAddresses_cons, List.cons_append,
      List.nodup_cons, List.mem_cons, not_or] at hNodup
    exact fun hEq => hNodup.1.1 hEq.symm
  have hInner :
      (p.setCount map.address 0).refCount buckets.address =
        1 := by
    rw [Process.setCount_refCount,
      Function.update_of_ne hNe]
    exact hBuckets
  change
    wp
      (objectRelease map.address
        (objectRelease buckets.address buckets.deInit)) _ _ p
  rw [wp_objectRelease, if_pos hMap, wp_objectRelease,
    if_pos hInner]
  exact KArray.wp_deInit_lost allocator hLost

end KMap

end KDoth

------------------------------------------------------------
-- Creation
------------------------------------------------------------

namespace KDoth

namespace KMap

open Command

variable {allocator : Allocator}
variable {own : List Nat} {L : Ledger}

/- A map that is given up leaves no trace. -/
theorem tells_abandon
    {map : KMap}
    (hUnfreed : map.Unfreed) :
    Tells allocator
      (do
        KObject.release map
        pure (none : Option KMap))
      (fun r => ∀ new, r = some new → new.Unfreed) := by
  apply Evolves.bind (tells_release hUnfreed)
  intro _ _
  exact Evolves.ret (by simp)

/-
  A bucket that is added is given up by its creator. Then the
  buckets are as they were, or they are lost with the map
  still owned.
-/
theorem wp_addBucket
    {map : KMap}
    {buckets : KArray (KList KMapEntry)}
    {bucket : KList KMapEntry}
    {p : Process}
    (hUnfreed : buckets.Unfreed)
    (hEmpty : bucket.items = [])
    (hOwns :
      Owns
        (Owned.addresses bucket ++
          (Owned.addresses
              { map with buckets := some buckets } ++
            own))
        (L + Owned.holds { map with buckets := some buckets })
        p) :
    wp
      (do
        let r ← buckets.addObject allocator (some bucket)
        KObject.release bucket
        pure r)
      (fun r q =>
        Has { map with buckets := some r.1 } own L q ∧
          (p.Tells allocator q ∧ r.1.Unfreed ∨
            r.2 = false ∧ r.1.Lost ∧
              List.IsPrefix p.requests q.requests ∧
              p.Emptied allocator q))
      (fun _ q => p.Tells allocator q) p := by
  have hZero := holds_empty hEmpty
  rw [wp_bind]
  apply
    wp_mono
      (wp_and
        (KArray.leads_addObject allocator buckets bucket _ _ p
          hOwns)
        (KArray.wp_addObject_unfreed hUnfreed (some bucket)))
  · rintro ⟨grown, added⟩ q ⟨hOwned, hTrace⟩
    rcases hOwned with ⟨hAddress, hAlloc, hAdded, hRefused⟩
    -- The map is owned again once the bucket is given up.
    have hGiven :
        wp (KObject.release bucket)
          (fun _ =>
            Has { map with buckets := some grown } own L)
          (fun _ _ => True) q := by
      cases added with
      | true =>
          rcases hAdded rfl with ⟨hSlots, hLent⟩
          apply wp_imp hLent
          intro _ r hr
          apply has_grown hAddress hAlloc hSlots
          simpa [hZero] using hr
      | false =>
          rcases hRefused rfl with ⟨hSame, hStill⟩
          have hSlots :
              grown.slots = buckets.slots ++ [] := by
            rw [List.append_nil]
            exact hSame
          apply
            wp_imp
              (Owned.leads_release bucket _ _ q
                (by
                  rw [hZero, add_zero]
                  exact hStill))
          intro _ r hr
          apply has_grown hAddress hAlloc hSlots
          simpa using hr
    have hQuiet :=
      KList.wp_release_empty (p := q) hEmpty
    rw [wp_bind]
    apply wp_mono (wp_and hGiven hQuiet)
    · rintro _ r ⟨hHas, hStray, hRequests⟩
      refine ⟨hHas, ?_⟩
      have hSame : q.Tells allocator r :=
        Process.tells_of_eq hRequests hStray
      rcases hTrace with
        ⟨hTells, hStill⟩ | ⟨hFalse, hLost, _, hLonger, hGone⟩
      · exact Or.inl ⟨IsTrans.trans _ _ _ hTells hSame, hStill⟩
      · right
        refine
          ⟨hFalse, hLost, hLonger.trans hSame.longer, ?_⟩
        exact
          (Process.emptied_trans hLonger hSame.longer).mpr
            (Or.inl hGone)
    · rintro _ _ ⟨_, hNever⟩
      exact hNever.elim
  · rintro _ q ⟨_, hTells⟩
    exact hTells

/-
  By induction on the buckets that are left to add, of which
  the last one may free their buffer.
-/
theorem wp_addBuckets_unfreed
    (map : KMap)
    (n : Nat)
    {buckets : KArray (KList KMapEntry)}
    {p : Process}
    (hUnfreed : buckets.Unfreed)
    (hHas : Has { map with buckets := some buckets } own L p) :
    wp (map.addBuckets allocator n buckets)
      (fun r q =>
        p.Tells allocator q ∧
          ∀ new, r = some new → new.Unfreed)
      (fun _ q => p.Tells allocator q) p := by
  induction n generalizing buckets p with
  | zero =>
      refine ⟨Std.Refl.refl p, ?_⟩
      intro new hEq
      cases hEq
      exact unfreed_some hUnfreed
  | succ n ih =>
      have hNew :
          wp (KList.new (α := KMapEntry) allocator) _ _ p :=
        wp_and (KList.leads_new p hHas) (KList.tells_new p)
      unfold addBuckets
      rw [wp_bind]
      apply wp_mono hNew
      · rintro bucket q ⟨⟨hEmpty, hOwns⟩, hTells, _⟩
        cases bucket with
        | none =>
            exact
              Evolves.wp_trans hTells
                (tells_abandon (unfreed_some hUnfreed) q)
        | some bucket =>
            apply Evolves.wp_trans hTells
            have hAdd :
                wp
                  (do
                    let r ←
                      buckets.addObject allocator (some bucket)
                    KObject.release bucket
                    pure r) _ _ q :=
              wp_addBucket hUnfreed (hEmpty bucket rfl)
                (by simpa using hOwns)
            rw [wp_bind] at hAdd
            change
              wp
                (buckets.addObject allocator (some bucket) >>=
                  _)
                _ _ q
            rw [wp_bind]
            apply wp_imp hAdd
            rintro ⟨grown, added⟩ r hGrown
            rw [wp_bind] at hGrown ⊢
            apply wp_imp hGrown
            rintro _ t ⟨hStill, hTrace⟩
            rcases hTrace with
              ⟨hSteady, hNext⟩ | ⟨hFalse, hLost, hLonger, hGone⟩
            · cases added with
              | true =>
                  exact
                    Evolves.wp_trans hSteady (ih hNext hStill)
              | false =>
                  exact
                    Evolves.wp_trans hSteady
                      (tells_abandon (unfreed_some hNext) t)
            · -- The map is given up: its buckets are read.
              have hNot : added = false := hFalse
              subst hNot
              have hTell :
                  ∀ u : Process,
                    u.stray = true ∧
                        List.IsPrefix t.requests u.requests →
                      q.Tells allocator u := by
                intro u hu
                refine ⟨hLonger.trans hu.2, ?_⟩
                rw [Process.emptied_trans hLonger hu.2]
                simp [hu.1, hGone]
              rw [if_neg (by decide), wp_bind]
              apply
                wp_mono (wp_release_lost allocator hLost hStill)
              · intro _ u hu
                exact ⟨hTell u hu, by simp⟩
              · intro _ u hu
                exact hTell u hu
      · rintro _ q ⟨_, hTells⟩
        exact hTells

/- The buckets of a new map are not freed. -/
theorem tells_allocWithBucketCount
    (hash : KObjectRef → UInt64)
    (equal : KObjectRef → KObjectRef → Bool)
    (n : Nat) :
    Tells allocator
      (allocWithBucketCount allocator hash equal n)
      (fun r => ∀ new, r = some new → new.Unfreed) := by
  unfold allocWithBucketCount
  split
  · exact Evolves.ret (by simp)
  · intro p
    have hNothing : Owns [] p.references p :=
      ⟨rfl, List.nodup_nil, by simp⟩
    have hObject :
        wp (objectNew allocator .kMap) _ _ p :=
      wp_and (leads_objectNew p hNothing) (Tells.ofObjectNew p)
    rw [wp_bind]
    apply wp_mono hObject
    · rintro address q ⟨hOwns, hTells, _⟩
      apply Evolves.wp_trans hTells
      cases address with
      | none => exact Evolves.ret (by simp) q
      | some address =>
          have hArray :
              wp
                (KArray.new (α := KList KMapEntry) allocator)
                _ _ q :=
            wp_and (KArray.leads_new q hOwns)
              (KArray.tells_new q)
          dsimp only
          rw [wp_bind]
          apply wp_mono hArray
          · rintro buckets r ⟨⟨hEmpty, hHeld⟩, hNew, hUnfreed⟩
            apply Evolves.wp_trans hNew
            cases buckets with
            | none => exact tells_abandon (by simp [Unfreed]) r
            | some buckets =>
                apply
                  wp_addBuckets_unfreed _ n
                    (hUnfreed buckets rfl)
                apply has_empty (hEmpty buckets rfl)
                simpa using hHeld
          · rintro _ r ⟨_, hNew⟩
            exact hNew
    · rintro _ q ⟨_, hTells⟩
      exact hTells

end KMap

end KDoth

------------------------------------------------------------
-- Storing
------------------------------------------------------------

namespace KDoth

namespace KMap

open Command

variable {allocator : Allocator}

theorem tells_entry_new
    (key value : KObjectRef) :
    Tells allocator (KMapEntry.new allocator key value)
      (fun _ => True) := by
  apply Evolves.bind Tells.ofObjectNew
  intro address _
  cases address with
  | none => exact Evolves.ret True.intro
  | some address =>
      apply Evolves.bind
        (SteadyObject.tells_retain allocator key)
      intro _ _
      apply Evolves.bind
        (SteadyObject.tells_retain allocator value)
      intro _ _
      exact Evolves.ret True.intro

/- Writing a bucket back keeps the buffer of the buckets. -/
theorem Unfreed.putBucket
    {map : KMap}
    (hUnfreed : map.Unfreed)
    (key : KObjectRef)
    (bucket : KList KMapEntry) :
    (map.putBucket key bucket).Unfreed := by
  unfold KMap.putBucket
  cases hBuckets : map.buckets with
  | none => exact hUnfreed
  | some buckets =>
      apply unfreed_some
      intro items hItems
      rcases hUnfreed buckets hBuckets items hItems with
        ⟨hFreed, hBacked⟩
      refine ⟨hFreed, ?_⟩
      intro hNonempty
      apply hBacked
      intro hNil
      apply hNonempty
      change buckets.slots.set _ _ = []
      rw [hNil, List.set_nil]

theorem tells_setValueNoRehash
    {map : KMap}
    (key value : Option KObjectRef)
    (hUnfreed : map.Unfreed) :
    Tells allocator (map.setValueNoRehash allocator key value)
      (fun r => r.1.Unfreed) := by
  cases value with
  | none => exact Evolves.ret hUnfreed
  | some value =>
      cases key with
      | none => exact Evolves.ret hUnfreed
      | some key =>
          unfold setValueNoRehash
          cases hBucket : map.getBucket key with
          | none =>
              simp only [hBucket]
              exact Evolves.ret hUnfreed
          | some bucket =>
              simp only [hBucket, KMapEntry.search_eq,
                pure_bind]
              cases hFind :
                  KMapEntry.find? map.equal key bucket.items with
              | some found =>
                  dsimp only
                  split
                  · exact Evolves.ret hUnfreed
                  · apply Evolves.bind
                      (SteadyObject.tells_release allocator
                        found.2.value)
                    intro _ _
                    apply Evolves.bind
                      (SteadyObject.tells_retain allocator
                        value)
                    intro _ _
                    exact Evolves.ret (hUnfreed.putBucket key _)
              | none =>
                  apply Evolves.bind (tells_entry_new key value)
                  intro newEntry _
                  apply Evolves.bind
                    (bucket.tells_addObject newEntry)
                  rintro ⟨grown, added⟩ _
                  apply Evolves.bind
                    (SteadyObject.tells_releaseOrNull allocator
                      newEntry)
                  intro _ _
                  cases added with
                  | true =>
                      exact
                        Evolves.ret (hUnfreed.putBucket key _)
                  | false => exact Evolves.ret hUnfreed

theorem tells_setValueWith
    {rehash : KMap → Call (KMap × Bool)}
    (hRehash :
      ∀ {map : KMap},
        map.Unfreed →
          Tells allocator (rehash map) (fun r => r.1.Unfreed))
    {map : KMap}
    (key value : Option KObjectRef)
    (hUnfreed : map.Unfreed) :
    Tells allocator
      (setValueWith allocator rehash map key value)
      (fun r => r.1.Unfreed) := by
  apply Evolves.bind (tells_setValueNoRehash key value hUnfreed)
  rintro ⟨mid, set⟩ hMid
  cases set with
  | false => exact Evolves.ret hMid
  | true =>
      apply Evolves.bind (hRehash hMid)
      intro r hr
      exact Evolves.ret hr

/- The copying loop, by induction on the entries. -/
theorem tells_copyEntries
    {setValue :
      KMap → Option KObjectRef → Option KObjectRef →
        Call (KMap × Bool)}
    (hSet :
      ∀ {map : KMap} (key value : Option KObjectRef),
        map.Unfreed →
          Tells allocator (setValue map key value)
            (fun r => r.1.Unfreed))
    (entries : List KMapEntry)
    {newMap : KMap}
    (hUnfreed : newMap.Unfreed) :
    Tells allocator (copyEntries setValue entries newMap)
      (fun r => r.1.Unfreed) := by
  induction entries generalizing newMap with
  | nil => exact Evolves.ret hUnfreed
  | cons entry entries ih =>
      apply Evolves.bind (hSet _ _ hUnfreed)
      rintro ⟨next, set⟩ hNext
      cases set with
      | false => exact Evolves.ret hNext
      | true => exact ih hNext

/- By induction on how deep rehashes nest. -/
theorem tells_rehashIfNecessary
    (depth : Nat)
    {map : KMap}
    (hUnfreed : map.Unfreed) :
    Tells allocator (rehashIfNecessary allocator depth map)
      (fun r => r.1.Unfreed) := by
  induction depth generalizing map with
  | zero =>
      unfold rehashIfNecessary
      split
      · exact Evolves.ret hUnfreed
      · exact Evolves.stop
  | succ depth ih =>
      unfold rehashIfNecessary
      split
      · exact Evolves.ret hUnfreed
      · apply Evolves.bind
          (tells_allocWithBucketCount map.hash map.equal _)
        intro newMap hNew
        cases newMap with
        | none => exact Evolves.ret hUnfreed
        | some newMap =>
            simp only [copyBuckets_eq]
            apply Evolves.bind
              (tells_copyEntries (tells_setValueWith ih)
                map.entries (hNew newMap rfl))
            rintro ⟨filled, copied⟩ hFilled
            cases copied with
            | false =>
                apply Evolves.bind (tells_release hFilled)
                intro _ _
                exact Evolves.ret hUnfreed
            | true =>
                apply Evolves.bind Tells.ofAssert
                intro _ _
                -- It is released with the buckets of the map.
                have hSwapped :
                    Unfreed
                      { filled with buckets := map.buckets } :=
                  hUnfreed
                apply Evolves.bind (tells_release hSwapped)
                intro _ _
                exact Evolves.ret hFilled

/-
  `KMapSetValue` uses a freed buffer exactly if it is granted
  a request that shrinks a block to nothing.
-/
theorem tells_setValue
    {map : KMap}
    (key value : Option KObjectRef)
    (hUnfreed : map.Unfreed) :
    Tells allocator (map.setValue allocator key value)
      (fun r => r.1.Unfreed) :=
  tells_setValueWith
    (tells_rehashIfNecessary (map.objectCount + 1)) key value
    hUnfreed

end KMap

end KDoth
