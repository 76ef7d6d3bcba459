import KDoth.Collections.Ownership
import KDoth.Map.Contents

/-
  What a map owns. A map that is changed by a call holds as
  many references more as its entries do, except that an
  entry removed from its bucket stays referenced.

  Key definitions include:
    * `KMap.tableAddresses`
    * `KMap.Has`

  Key theorems include:
    * `KMap.leads_allocWithBucketCount`
    * `KMap.leads_setValue`
    * `KMap.Has.removeValue`
-/

------------------------------------------------------------
-- Owned Entries And Maps
------------------------------------------------------------

namespace KDoth

open Command

instance : Owned KMapEntry where
  addresses entry := [entry.address]
  holds entry := Ledger.one entry.key + Ledger.one entry.value
  leads_release entry own L := by
    have hKey :
        Leads
          (Owns own
            (L + Ledger.one entry.value +
              Ledger.one entry.key))
          (KObject.release entry.key)
          (fun _ => Owns own (L + Ledger.one entry.value)) :=
      leads_release_client
    apply leads_objectRelease
    apply Leads.bind (hKey.assuming ?_)
    · intro _
      exact leads_release_client
    · intro p hp
      apply Owns.ledger_eq hp
      abel
  leads_lend _ _ _ := leads_objectRetain_lend

instance : Owned KMap where
  addresses map :=
    map.address :: Owned.allAddresses map.buckets.toList
  holds map := Owned.allHolds map.buckets.toList
  leads_release map _ _ :=
    leads_objectRelease (Owned.leads_releaseOrNull map.buckets)
  leads_lend _ _ _ := leads_objectRetain_lend

/- A new entry holds its key and its value. -/
theorem KMapEntry.leads_new
    {allocator : Allocator}
    {own : List Nat}
    {L : Ledger}
    (key value : KObjectRef) :
    Leads (Owns own L) (KMapEntry.new allocator key value)
      (fun r =>
        Owns (Owned.allAddresses r.toList ++ own)
          (L + Owned.allHolds r.toList)) := by
  apply Leads.bind leads_objectNew
  intro address
  cases address with
  | none =>
      apply Leads.ret
      intro p hp
      simpa using hp
  | some address =>
      apply Leads.bind leads_retain_client
      intro _
      apply Leads.bind leads_retain_client
      intro _
      apply Leads.ret
      intro p hp
      rw [add_assoc] at hp
      simpa [Owned.addresses, Owned.holds] using hp

end KDoth

------------------------------------------------------------
-- What A Map Holds
------------------------------------------------------------

namespace KDoth

namespace KMap

/- The addresses of a map that are not in its buckets. -/
def tableAddresses (map : KMap) : List Nat :=
  match map.buckets with
  | none => [map.address]
  | some buckets =>
      map.address :: buckets.address ::
        Owned.allAddresses buckets.items.toList

theorem addresses_eq (map : KMap) :
    Owned.addresses map =
      map.tableAddresses ++ Owned.allAddresses map.slots := by
  unfold tableAddresses slots
  cases hBuckets : map.buckets with
  | none => simp [Owned.addresses, hBuckets]
  | some buckets => simp [Owned.addresses, hBuckets]

@[simp] theorem tableAddresses_putBucket
    (map : KMap)
    (key : KObjectRef)
    (bucket : KList KMapEntry) :
    (map.putBucket key bucket).tableAddresses =
      map.tableAddresses := by
  unfold tableAddresses putBucket
  cases hBuckets : map.buckets with
  | none => simp [hBuckets]
  | some buckets => rfl

/- A map holds what its buckets hold. -/
theorem holds_eq_slots (map : KMap) :
    Owned.holds map = Owned.allHolds map.slots := by
  unfold slots
  cases hBuckets : map.buckets with
  | none => simp [Owned.holds, hBuckets]
  | some buckets => simp [Owned.holds, hBuckets]

/- A map holds what its entries hold. -/
theorem holds_eq_entries (map : KMap) :
    Owned.holds map = Owned.allHolds map.entries := by
  rw [holds_eq_slots, entries_eq]
  induction map.slots with
  | nil => rfl
  | cons bucket rest ih =>
      rw [List.flatMap_cons, Owned.allHolds_append,
        Owned.allHolds_cons, ih]
      rfl

/- Only the items of the written bucket change hands. -/
theorem owned_bucket
    {map : KMap}
    {key : KObjectRef}
    {bucket : KList KMapEntry}
    (hBucket : map.getBucket key = some bucket) :
    ∃ others otherHolds,
      (Owned.addresses map).Perm
          (Owned.allAddresses bucket.items ++ others) ∧
        Owned.holds map =
          Owned.allHolds bucket.items + otherHolds ∧
        ∀ items,
          (Owned.addresses
              (map.putBucket key
                { bucket with items := items })).Perm
              (Owned.allAddresses items ++ others) ∧
            Owned.holds
                (map.putBucket key
                  { bucket with items := items }) =
              Owned.allHolds items + otherHolds := by
  rcases slots_perm_bucket hBucket with
    ⟨rest, hBefore, hAfter⟩
  have hMove :
      ∀ items : List KMapEntry,
        (map.tableAddresses ++
            Owned.allAddresses
              ({ bucket with items := items } :: rest)).Perm
          (Owned.allAddresses items ++
            (bucket.address ::
              (map.tableAddresses ++
                Owned.allAddresses rest))) := by
    intro items
    rw [Owned.allAddresses_cons]
    change
      (map.tableAddresses ++
        (bucket.address ::
          (Owned.allAddresses items ++
            Owned.allAddresses rest))).Perm _
    apply List.perm_middle.trans
    apply List.Perm.trans _ List.perm_middle.symm
    apply List.Perm.cons
    rw [← List.append_assoc, ← List.append_assoc]
    exact List.perm_append_comm.append_right _
  refine
    ⟨bucket.address ::
        (map.tableAddresses ++ Owned.allAddresses rest),
      Owned.allHolds rest, ?_, ?_, ?_⟩
  · rw [addresses_eq]
    have hSlots := hBefore.flatMap_right Owned.addresses
    exact
      (hSlots.append_left map.tableAddresses).trans
        (hMove bucket.items)
  · rw [holds_eq_slots]
    exact (hBefore.map Owned.holds).sum_eq
  · intro items
    constructor
    · rw [addresses_eq, tableAddresses_putBucket]
      have hSlots :=
        (hAfter { bucket with items := items }).flatMap_right
          Owned.addresses
      exact
        (hSlots.append_left map.tableAddresses).trans
          (hMove items)
    · rw [holds_eq_slots]
      exact
        ((hAfter { bucket with items := items }).map
          Owned.holds).sum_eq

end KMap

end KDoth

------------------------------------------------------------
-- Storing
------------------------------------------------------------

namespace KDoth

namespace KMap

open Command

variable {allocator : Allocator}
variable {own : List Nat} {L : Ledger}

/-
  The map and everything in it is owned, besides other
  objects, and the library holds what the map holds, besides
  other references.
-/
def Has
    (map : KMap)
    (own : List Nat)
    (L : Ledger) : Process → Prop :=
  Owns (Owned.addresses map ++ own) (L + Owned.holds map)

/- An entry of a bucket replaced by one with its address. -/
theorem Has.setEntry
    {map : KMap}
    {key : KObjectRef}
    {bucket : KList KMapEntry}
    (hBucket : map.getBucket key = some bucket)
    {i : Nat}
    {entry : KMapEntry}
    (hEntry : bucket.items[i]? = some entry)
    (changed : KMapEntry)
    (hAddress : changed.address = entry.address)
    {p : Process}
    {M : Ledger}
    (hOwns : Owns (Owned.addresses map ++ own) M p)
    (hLedger :
      M + Owned.holds entry =
        L + Owned.holds map + Owned.holds changed) :
    (map.putBucket key
        { bucket with
          items := bucket.items.set i changed }).Has own L p := by
  rcases owned_bucket hBucket with
    ⟨others, otherHolds, hBefore, hHeld, hAfter⟩
  rcases List.getElem?_eq_some_iff.mp hEntry with
    ⟨hLt, hGet⟩
  rcases hAfter (bucket.items.set i changed) with
    ⟨hPerm, hHolds⟩
  have hOld :
      bucket.items.Perm (entry :: bucket.items.eraseIdx i) := by
    have h := List.getElem_cons_eraseIdx_perm hLt
    rw [hGet] at h
    exact h.symm
  have hNew := List.set_perm_cons_eraseIdx hLt changed
  have hSame :
      (Owned.allAddresses (bucket.items.set i changed)).Perm
        (Owned.allAddresses bucket.items) := by
    apply (hNew.flatMap_right Owned.addresses).trans
    apply List.Perm.trans _
      (hOld.flatMap_right Owned.addresses).symm
    simp [Owned.addresses, hAddress]
  have hOldHolds :
      Owned.allHolds bucket.items =
        Owned.holds entry +
          Owned.allHolds (bucket.items.eraseIdx i) := by
    rw [← Owned.allHolds_cons]
    exact (hOld.map Owned.holds).sum_eq
  have hNewHolds :
      Owned.allHolds (bucket.items.set i changed) =
        Owned.holds changed +
          Owned.allHolds (bucket.items.eraseIdx i) := by
    rw [← Owned.allHolds_cons]
    exact (hNew.map Owned.holds).sum_eq
  apply Owns.ledger_eq
  · apply hOwns.perm
    apply List.Perm.append_right
    exact
      hBefore.trans
        ((hSame.symm.append_right others).trans hPerm.symm)
  · rw [hHolds, hNewHolds]
    rw [hHeld, hOldHolds] at hLedger
    have hCancel := congrArg (· - Owned.holds entry) hLedger
    simp only [add_sub_cancel_right] at hCancel
    rw [hCancel]
    abel

/- An entry appended to a bucket. -/
theorem Has.appendEntry
    {map : KMap}
    {key : KObjectRef}
    {bucket : KList KMapEntry}
    (hBucket : map.getBucket key = some bucket)
    {entry : KMapEntry}
    {p : Process}
    (hOwns :
      Owns
        (Owned.addresses entry ++
          (Owned.addresses map ++ own))
        (L + Owned.holds map + Owned.holds entry) p) :
    (map.putBucket key
        { bucket with
          items := bucket.items ++ [entry] }).Has own L p := by
  rcases owned_bucket hBucket with
    ⟨others, otherHolds, hBefore, hHeld, hAfter⟩
  rcases hAfter (bucket.items ++ [entry]) with
    ⟨hPerm, hHolds⟩
  apply Owns.ledger_eq
  · apply hOwns.perm
    rw [← List.append_assoc]
    apply List.Perm.append_right
    apply List.Perm.trans _ hPerm.symm
    rw [Owned.allAddresses_append, List.append_assoc]
    apply (hBefore.append_left _).trans
    rw [← List.append_assoc, ← List.append_assoc]
    apply List.Perm.append_right
    simpa using List.perm_append_comm
  · rw [hHolds, hHeld, Owned.allHolds_append]
    simp only [Owned.allHolds_cons, Owned.allHolds_nil]
    abel

/- The old value is given up for the new one. -/
theorem leads_setEntry
    {map : KMap}
    {key : KObjectRef}
    {bucket : KList KMapEntry}
    (hBucket : map.getBucket key = some bucket)
    {i : Nat}
    {entry : KMapEntry}
    (hEntry : bucket.items[i]? = some entry)
    (value : KObjectRef) :
    Leads (map.Has own L)
      (do
        KObject.release entry.value
        KObject.retain value
        pure
          (map.putBucket key
              { bucket with
                items :=
                  bucket.items.set i
                    { entry with value := value } },
            true))
      (fun r => r.1.Has own L) := by
  have hRelease :
      Leads (map.Has own L) (KObject.release entry.value)
        (fun _ =>
          Owns (Owned.addresses map ++ own)
            (L + Owned.holds map - Ledger.one entry.value)) := by
    apply leads_release_client.assuming
    intro p hp
    apply Owns.ledger_eq hp
    exact (sub_add_cancel _ _).symm
  apply Leads.bind hRelease
  intro _
  apply Leads.bind leads_retain_client
  intro _
  apply Leads.ret
  intro p hp
  apply
    Has.setEntry hBucket hEntry { entry with value := value }
      rfl hp
  simp only [Owned.holds]
  abel

/- The bucket retains a new entry, which is given up. -/
theorem leads_addEntry
    (allocator : Allocator)
    {map : KMap}
    {key : KObjectRef}
    {bucket : KList KMapEntry}
    (hBucket : map.getBucket key = some bucket)
    (entry : KMapEntry) :
    Leads
      (Owns
        (Owned.addresses entry ++
          (Owned.addresses map ++ own))
        (L + Owned.holds map + Owned.holds entry))
      (do
        let (bucket, added) ←
          bucket.addObject allocator (some entry)
        KObject.release entry
        if added then
          pure
            ({ map.putBucket key bucket with
                objectCount := map.objectCount + 1 },
              true)
        else
          pure (map, false))
      (fun r => r.1.Has own L) := by
  apply
    Leads.bind
      (KList.leads_addObject allocator bucket entry _ _)
  intro r
  rcases r with ⟨grown, added⟩
  cases added with
  | true =>
      intro p hp
      rcases hp.1 rfl with ⟨hGrown, hLent⟩
      have hGrown' : grown = _ := hGrown
      subst hGrown'
      rw [wp_bind]
      apply wp_imp hLent
      intro _ q hq
      exact Has.appendEntry hBucket hq
  | false =>
      apply Leads.bind (R := fun _ => map.Has own L)
      · apply (Owned.leads_release entry _ _).assuming
        intro p hp
        exact (hp.2 rfl).2
      · intro _
        exact Leads.ret (fun _ h => h)

theorem leads_setValueNoRehash
    (map : KMap)
    (key value : Option KObjectRef) :
    Leads (map.Has own L)
      (map.setValueNoRehash allocator key value)
      (fun r => r.1.Has own L) := by
  cases value with
  | none => exact Leads.ret (fun _ h => h)
  | some value =>
      cases key with
      | none => exact Leads.ret (fun _ h => h)
      | some key =>
          unfold setValueNoRehash
          cases hBucket : map.getBucket key with
          | none =>
              simp only [hBucket]
              exact Leads.ret (fun _ h => h)
          | some bucket =>
              simp only [hBucket, KMapEntry.search_eq,
                pure_bind]
              cases hFind :
                  KMapEntry.find? map.equal key bucket.items with
              | some found =>
                  rcases found with ⟨i, entry⟩
                  rcases KMapEntry.find?_eq_some hFind with
                    ⟨hEntry, _⟩
                  dsimp only
                  split
                  · exact Leads.ret (fun _ h => h)
                  · exact leads_setEntry hBucket hEntry value
              | none =>
                  apply Leads.bind (KMapEntry.leads_new key value)
                  intro newEntry
                  cases newEntry with
                  | none =>
                      apply Leads.ret
                      intro p hp
                      simpa [Has] using hp
                  | some entry =>
                      apply
                        (leads_addEntry allocator hBucket
                          entry).assuming
                      intro p hp
                      simpa using hp

end KMap

end KDoth

------------------------------------------------------------
-- Removing
------------------------------------------------------------

namespace KDoth

namespace KMap

variable {own : List Nat} {L : Ledger}

/-
  A removed entry is not in the map any more, but what it
  holds is still held.
-/
theorem Has.removeValue
    {map : KMap}
    {p : Process}
    (hHas : map.Has own L p)
    (key : KObjectRef)
    (hRemoved : (map.removeValue (some key)).2 = true) :
    ∃ entry : KMapEntry,
      (map.removeValue (some key)).1.Has own
        (L + Owned.holds entry) p := by
  unfold KMap.removeValue at hRemoved ⊢
  cases hBucket : map.getBucket key with
  | none => simp [hBucket] at hRemoved
  | some bucket =>
      cases hFind :
          KMapEntry.find? map.equal key bucket.items with
      | none => simp [hBucket, hFind] at hRemoved
      | some found =>
          rcases found with ⟨i, entry⟩
          rcases KMapEntry.find?_eq_some hFind with
            ⟨hEntry, _⟩
          rcases owned_bucket hBucket with
            ⟨others, otherHolds, hBefore, hHeld, hAfter⟩
          rcases hAfter (bucket.items.eraseIdx i) with
            ⟨hPerm, hHolds⟩
          rcases List.getElem?_eq_some_iff.mp hEntry with
            ⟨hLt, hGet⟩
          have hOld :
              bucket.items.Perm
                (entry :: bucket.items.eraseIdx i) := by
            have h := List.getElem_cons_eraseIdx_perm hLt
            rw [hGet] at h
            exact h.symm
          have hAddresses :
              (Owned.addresses map ++ own).Perm
                (entry.address ::
                  (Owned.addresses
                      (map.putBucket key
                        { bucket with
                          items := bucket.items.eraseIdx i }) ++
                    own)) := by
            rw [← List.cons_append]
            apply List.Perm.append_right
            apply hBefore.trans
            apply List.Perm.trans
              ((hOld.flatMap_right
                Owned.addresses).append_right others)
            exact hPerm.symm.cons entry.address
          simp only [hBucket, hFind, KList.removeObjectAtIndex,
            hEntry]
          refine ⟨entry, ?_⟩
          have hTail := (Owns.perm hHas hAddresses).tail
          apply Owns.ledger_eq hTail
          change
            L + Owned.holds map =
              L + Owned.holds entry +
                Owned.holds
                  (map.putBucket key
                    { bucket with
                      items := bucket.items.eraseIdx i })
          rw [hHolds, hHeld]
          have hItems :
              Owned.allHolds bucket.items =
                Owned.holds entry +
                  Owned.allHolds (bucket.items.eraseIdx i) := by
            rw [← Owned.allHolds_cons]
            exact (hOld.map Owned.holds).sum_eq
          rw [hItems]
          abel

/- A removal that finds nothing changes nothing. -/
theorem removeValue_eq_self
    {map : KMap}
    {key : KObjectRef}
    (hKept : (map.removeValue (some key)).2 = false) :
    (map.removeValue (some key)).1 = map := by
  unfold KMap.removeValue at hKept ⊢
  cases hBucket : map.getBucket key with
  | none => simp [hBucket]
  | some bucket =>
      cases hFind :
          KMapEntry.find? map.equal key bucket.items with
      | none => simp [hBucket, hFind]
      | some found =>
          rcases found with ⟨i, entry⟩
          rcases KMapEntry.find?_eq_some hFind with
            ⟨hEntry, _⟩
          simp [hBucket, hFind, KList.removeObjectAtIndex,
            hEntry] at hKept

end KMap

end KDoth

------------------------------------------------------------
-- Creation
------------------------------------------------------------

namespace KDoth

namespace KMap

open Command

variable {allocator : Allocator}
variable {own : List Nat} {L : Ledger}

/- A created map, or NULL, is owned by its creator. -/
def HasOrNull
    (own : List Nat)
    (L : Ledger)
    (map : Option KMap) : Process → Prop :=
  Owns (Owned.allAddresses map.toList ++ own)
    (L + Owned.allHolds map.toList)

theorem hasOrNull_some
    {map : KMap}
    {p : Process} :
    HasOrNull own L (some map) p ↔ map.Has own L p := by
  simp [HasOrNull, Has]

theorem hasOrNull_none
    {p : Process} :
    HasOrNull own L none p ↔ Owns own L p := by
  simp [HasOrNull]

/- An array with the same allocation and other slots. -/
theorem has_grown
    {map : KMap}
    {buckets grown : KArray (KList KMapEntry)}
    (hAddress : grown.address = buckets.address)
    (hItems :
      Owned.allAddresses grown.items.toList =
        Owned.allAddresses buckets.items.toList)
    {added : List (KList KMapEntry)}
    (hSlots : grown.slots = buckets.slots ++ added)
    {p : Process}
    (hOwns :
      Owns
        (Owned.allAddresses added ++
          (Owned.addresses { map with buckets := some buckets } ++
            own))
        (L +
          Owned.holds { map with buckets := some buckets } +
            Owned.allHolds added) p) :
    Has { map with buckets := some grown } own L p := by
  have hAddresses :
      ∀ array : KArray (KList KMapEntry),
        Owned.addresses { map with buckets := some array } =
          map.address :: array.address ::
            (Owned.allAddresses array.items.toList ++
              Owned.allAddresses array.slots) := by
    intro array
    simp [Owned.addresses]
  have hHolds :
      ∀ array : KArray (KList KMapEntry),
        Owned.holds { map with buckets := some array } =
          Owned.allHolds array.slots := by
    intro array
    simp [Owned.holds]
  unfold Has
  apply Owns.ledger_eq
  · apply hOwns.perm
    rw [← List.append_assoc]
    apply List.Perm.append_right
    rw [hAddresses, hAddresses, hAddress, hItems, hSlots,
      Owned.allAddresses_append, ← List.append_assoc]
    exact List.perm_append_comm
  · rw [hHolds, hHolds, hSlots, Owned.allHolds_append]
    abel

/- A map gets an array of buckets that is still empty. -/
theorem has_empty
    {map : KMap}
    {buckets : KArray (KList KMapEntry)}
    (hSlots : buckets.slots = [])
    {p : Process}
    (hOwns :
      Owns (Owned.addresses buckets ++ map.address :: own) L
        p) :
    Has { map with buckets := some buckets } own L p := by
  apply Owns.ledger_eq
  · apply hOwns.perm
    simp only [Owned.addresses, Option.toList_some,
      Owned.allAddresses_cons, Owned.allAddresses_nil,
      List.append_nil, List.cons_append]
    rw [← List.cons_append]
    exact List.perm_middle
  · simp [Owned.holds, hSlots]

/- A map that is given up while it is built. -/
theorem leads_abandon
    (map : KMap)
    (own : List Nat)
    (L : Ledger) :
    Leads (map.Has own L)
      (do
        KObject.release map
        pure none)
      (HasOrNull own L) := by
  apply Leads.bind (Owned.leads_release _ own L)
  intro _
  apply Leads.ret
  intro p hp
  exact hasOrNull_none.mpr hp

theorem holds_empty
    {bucket : KList KMapEntry}
    (hItems : bucket.items = []) :
    Owned.holds bucket = (0 : Ledger) := by
  simp [Owned.holds, hItems]

theorem leads_addBuckets
    (allocator : Allocator)
    (map : KMap)
    (n : Nat)
    (buckets : KArray (KList KMapEntry))
    (own : List Nat)
    (L : Ledger) :
    Leads (Has { map with buckets := some buckets } own L)
      (map.addBuckets allocator n buckets)
      (HasOrNull own L) := by
  induction n generalizing buckets with
  | zero =>
      apply Leads.ret
      intro p hp
      exact hasOrNull_some.mpr hp
  | succ n ih =>
      unfold addBuckets
      apply Leads.bind KList.leads_new
      intro bucket
      cases bucket with
      | none =>
          apply (leads_abandon _ own L).assuming
          intro p hp
          exact hp.2
      | some bucket =>
          intro p hp
          have hZero := holds_empty (hp.1 bucket rfl)
          have hAdd :=
            KArray.leads_addObject allocator buckets bucket
              (Owned.addresses
                  { map with buckets := some buckets } ++ own)
              (L +
                Owned.holds
                  { map with buckets := some buckets }) p
              (by simpa using hp.2)
          change
            wp
              (buckets.addObject allocator (some bucket) >>= _)
              _ _ p
          rw [wp_bind]
          apply wp_imp hAdd
          intro r q hq
          rcases r with ⟨grown, added⟩
          rcases hq with ⟨hAddress, hAlloc, hAdded, hKept⟩
          rw [wp_bind]
          cases added with
          | true =>
              rcases hAdded rfl with ⟨hSlots, hLent⟩
              apply wp_imp hLent
              intro _ q' hq'
              apply ih grown
              apply has_grown hAddress hAlloc hSlots
              simpa [hZero] using hq'
          | false =>
              rcases hKept rfl with ⟨hSame, hOwns⟩
              have hSlots :
                  grown.slots = buckets.slots ++ [] := by
                rw [List.append_nil]
                exact hSame
              have hGiven :=
                Owned.leads_release bucket
                  (Owned.addresses
                      { map with buckets := some buckets } ++
                    own)
                  (L +
                    Owned.holds
                      { map with buckets := some buckets })
                  q
                  (by
                    rw [hZero, add_zero]
                    exact hOwns)
              apply wp_imp hGiven
              intro _ q' hq'
              apply leads_abandon _ own L
              apply has_grown hAddress hAlloc hSlots
              simpa using hq'

/- A new map is owned by its creator. -/
theorem leads_allocWithBucketCount
    (allocator : Allocator)
    (hash : KObjectRef → UInt64)
    (equal : KObjectRef → KObjectRef → Bool)
    (n : Nat)
    (own : List Nat)
    (L : Ledger) :
    Leads (Owns own L)
      (allocWithBucketCount allocator hash equal n)
      (HasOrNull own L) := by
  unfold allocWithBucketCount
  split
  · apply Leads.ret
    intro p hp
    exact hasOrNull_none.mpr hp
  · apply Leads.bind leads_objectNew
    intro address
    cases address with
    | none =>
        apply Leads.ret
        intro p hp
        exact hasOrNull_none.mpr hp
    | some address =>
        apply Leads.bind KArray.leads_new
        intro buckets
        cases buckets with
        | none =>
            apply Leads.bind (R := fun _ => Owns own L)
            · apply (Owned.leads_release (α := KMap) _ own L).assuming
              intro p hp
              simpa [Owned.addresses, Owned.holds] using hp.2
            · intro _
              apply Leads.ret
              intro p hp
              exact hasOrNull_none.mpr hp
        | some buckets =>
            apply (leads_addBuckets allocator _ n buckets own L).assuming
            intro p hp
            apply has_empty (hp.1 buckets rfl)
            simpa using hp.2

end KMap

end KDoth

------------------------------------------------------------
-- Growth
------------------------------------------------------------

namespace KDoth

namespace KMap

open Command

variable {allocator : Allocator}
variable {own : List Nat} {L : Ledger}

/- Storing and then rehashing keeps the ownership. -/
theorem leads_setValueWith
    (allocator : Allocator)
    {rehash : KMap → Call (KMap × Bool)}
    (hRehash :
      ∀ map own L,
        Leads (Has map own L) (rehash map)
          (fun r => r.1.Has own L))
    (map : KMap)
    (key value : Option KObjectRef)
    (own : List Nat)
    (L : Ledger) :
    Leads (map.Has own L)
      (setValueWith allocator rehash map key value)
      (fun r => r.1.Has own L) := by
  unfold setValueWith
  apply Leads.bind (leads_setValueNoRehash map key value)
  intro r
  rcases r with ⟨mid, set⟩
  cases set with
  | true =>
      apply Leads.bind (hRehash mid own L)
      intro _
      exact Leads.ret (fun _ h => h)
  | false => exact Leads.ret (fun _ h => h)

/- The loop of a rehash, by induction on the entries. -/
theorem leads_copyEntries
    {setValue :
      KMap → Option KObjectRef → Option KObjectRef →
        Call (KMap × Bool)}
    (hSet :
      ∀ map key value own L,
        Leads (Has map own L) (setValue map key value)
          (fun r => r.1.Has own L))
    (entries : List KMapEntry)
    (newMap : KMap)
    (own : List Nat)
    (L : Ledger) :
    Leads (newMap.Has own L)
      (copyEntries setValue entries newMap)
      (fun r => r.1.Has own L) := by
  induction entries generalizing newMap with
  | nil => exact Leads.ret (fun _ h => h)
  | cons entry entries ih =>
      apply Leads.bind (hSet newMap _ _ own L)
      intro r
      rcases r with ⟨next, set⟩
      cases set with
      | true => exact ih next
      | false => exact Leads.ret (fun _ h => h)

/- Two maps that swap their buckets own the same objects. -/
theorem Has.swap
    {map newMap : KMap}
    {p : Process}
    (hHas :
      newMap.Has (Owned.addresses map ++ own)
        (L + Owned.holds map) p) :
    Has { newMap with buckets := map.buckets }
      (Owned.addresses { map with buckets := newMap.buckets } ++
        own)
      (L +
        Owned.holds { map with buckets := newMap.buckets }) p := by
  apply Owns.ledger_eq
  · apply Owns.perm hHas
    simp only [Owned.addresses, List.cons_append]
    apply List.Perm.cons
    apply List.perm_middle.trans
    apply List.Perm.trans _ List.perm_middle.symm
    apply List.Perm.cons
    rw [← List.append_assoc, ← List.append_assoc]
    exact List.perm_append_comm.append_right own
  · simp only [Owned.holds]
    abel

/- By induction on how deep rehashes nest. -/
theorem leads_rehashIfNecessary
    (allocator : Allocator)
    (depth : Nat)
    (map : KMap)
    (own : List Nat)
    (L : Ledger) :
    Leads (map.Has own L)
      (rehashIfNecessary allocator depth map)
      (fun r => r.1.Has own L) := by
  induction depth generalizing map own L with
  | zero =>
      unfold rehashIfNecessary
      split
      · exact Leads.ret (fun _ h => h)
      · exact Leads.stop
  | succ depth ih =>
      unfold rehashIfNecessary
      split
      · exact Leads.ret (fun _ h => h)
      · apply Leads.bind
          (leads_allocWithBucketCount allocator map.hash
            map.equal _ _ _)
        intro newMap
        cases newMap with
        | none =>
            apply Leads.ret
            intro p hp
            exact hasOrNull_none.mp hp
        | some newMap =>
            simp only [copyBuckets_eq]
            have hCopy :=
              leads_copyEntries
                (leads_setValueWith allocator ih) map.entries
                newMap (Owned.addresses map ++ own)
                (L + Owned.holds map)
            apply Leads.bind (hCopy.assuming ?_)
            · intro r
              rcases r with ⟨filled, copied⟩
              cases copied with
              | true =>
                  apply Leads.bind (R := fun _ =>
                    filled.Has (Owned.addresses map ++ own)
                      (L + Owned.holds map))
                  · intro p hp
                    rw [wp_kAssert]
                    split
                    · exact hp
                    · exact True.intro
                  · intro _
                    apply Leads.bind (R := fun _ =>
                      Has { map with buckets := filled.buckets }
                        own L)
                    · apply
                        (Owned.leads_release (α := KMap) _ _
                          _).assuming
                      intro p hp
                      exact Has.swap hp
                    · intro _
                      exact Leads.ret (fun _ h => h)
              | false =>
                  apply Leads.bind (R := fun _ => map.Has own L)
                  · exact Owned.leads_release filled _ _
                  · intro _
                    exact Leads.ret (fun _ h => h)
            · intro p hp
              exact hasOrNull_some.mp hp

/- `KMapSetValue` keeps the ownership. -/
theorem leads_setValue
    (allocator : Allocator)
    (map : KMap)
    (key value : Option KObjectRef)
    (own : List Nat)
    (L : Ledger) :
    Leads (map.Has own L) (map.setValue allocator key value)
      (fun r => r.1.Has own L) :=
  leads_setValueWith allocator
    (leads_rehashIfNecessary allocator (map.objectCount + 1))
    map key value own L

end KMap

end KDoth
