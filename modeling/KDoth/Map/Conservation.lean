import KDoth.Map.Ownership
import KDoth.Map.Refinement

/-
  When a map holds exactly the references of its entries.

  An entry that `KMapRemoveValue` takes out of its bucket is
  not released, so its key and its value stay referenced.
  Every other call keeps the balance.

  Key definitions include:
    * `KMap.liveReferences`
    * `ClassMap.RemovesAbsent`

  Key theorems include:
    * `KMap.leads_calls`
    * `KMap.session_conserves_iff`
-/

------------------------------------------------------------
-- Live References
------------------------------------------------------------

namespace KDoth

namespace KMap

/-
  The entries of the map whose key is the object and those
  whose value is the object.
-/
def liveReferences
    (map : KMap)
    (o : KObjectRef) : Nat :=
  (map.entries.map KMapEntry.key).count o +
    (map.entries.map KMapEntry.value).count o

/- Entries hold one reference to each key and value. -/
theorem allHolds_entries
    (entries : List KMapEntry)
    (o : KObjectRef) :
    Owned.allHolds entries o =
      ((entries.map KMapEntry.key).count o : Int) +
        (entries.map KMapEntry.value).count o := by
  induction entries with
  | nil => simp
  | cons entry rest ih =>
      have hOne :
          ∀ x : KObjectRef,
            Ledger.one x o = if x = o then 1 else 0 := by
        intro x
        by_cases hSame : x = o
        · simp [Ledger.one, hSame]
        · simp [Ledger.one, hSame, Ne.symm hSame]
      rw [Owned.allHolds_cons, Pi.add_apply, ih]
      simp only [Owned.holds, Pi.add_apply, hOne,
        List.map_cons, List.count_cons, beq_iff_eq]
      push_cast
      omega

theorem holds_eq_liveReferences
    (map : KMap)
    (o : KObjectRef) :
    Owned.holds map o = (map.liveReferences o : Int) := by
  rw [holds_eq_entries, allHolds_entries]
  unfold liveReferences
  push_cast
  rfl

/- Entries that hold nothing do not exist. -/
theorem allHolds_eq_zero_iff
    (entries : List KMapEntry) :
    Owned.allHolds entries = (0 : Ledger) ↔ entries = [] := by
  constructor
  · intro hZero
    cases entries with
    | nil => rfl
    | cons entry rest =>
        exfalso
        have hKey := congrFun hZero entry.key
        rw [allHolds_entries] at hKey
        simp only [List.map_cons, List.count_cons_self,
          Pi.zero_apply] at hKey
        omega
  · intro hNil
    rw [hNil]
    rfl

end KMap

end KDoth

------------------------------------------------------------
-- Removals
------------------------------------------------------------

namespace KDoth

/- `KMapRemoveValue` is only called for keys not in the map. -/
def ClassMap.RemovesAbsent
    {S : Setoid KObjectRef} :
    ClassMap S KObjectRef → List MapCall → Prop
| _, [] => True
| σ, c :: cs =>
    (∀ key, c = .removeValue key → σ.get key = none) ∧
      RemovesAbsent (σ.call c).1 cs

namespace KMap

open Command

variable {hash : KObjectRef → UInt64}
variable {equal : KObjectRef → KObjectRef → Bool}
variable {hCons : ConsistentHash hash equal}
variable {allocator : Allocator}

/- A call loses the entry that it removes, if any. -/
theorem leads_call
    (allocator : Allocator)
    {map : KMap}
    {σ : ClassMap hCons.setoid KObjectRef}
    (hRef : Refines hCons map σ)
    (c : MapCall)
    (own : List Nat)
    (L : Ledger) :
    Leads (map.Has own L) (map.call allocator c)
      (fun r p =>
        ∃ lost : List KMapEntry,
          (lost = [] ↔
            ∀ key, c = .removeValue key → σ.get key = none) ∧
          r.1.Has own (L + Owned.allHolds lost) p) := by
  cases c with
  | setValue key value =>
      apply Leads.bind (leads_setValue allocator map _ _ own L)
      intro r
      apply Leads.ret
      intro p hp
      refine ⟨[], by simp, ?_⟩
      simpa using hp
  | getValue key =>
      apply Leads.ret
      intro p hp
      refine ⟨[], by simp, ?_⟩
      simpa using hp
  | removeValue key =>
      have hFlag := (hRef.removeValue key).1
      apply Leads.ret
      intro p hp
      cases hRemoved : (map.removeValue (some key)).2 with
      | true =>
          rcases Has.removeValue hp key hRemoved with
            ⟨entry, hHas⟩
          rw [hRemoved] at hFlag
          refine ⟨[entry], ?_, ?_⟩
          · constructor
            · intro hNil
              cases hNil
            · intro hAbsent
              rw [hAbsent key rfl] at hFlag
              cases hFlag
          · simpa using hHas
      | false =>
          rw [hRemoved] at hFlag
          refine ⟨[], ?_, ?_⟩
          · constructor
            · intro _ other hOther
              cases hOther
              simpa using hFlag.symm
            · intro _
              rfl
          · rw [removeValue_eq_self hRemoved]
            simpa using hp
  | getCount =>
      apply Leads.ret
      intro p hp
      refine ⟨[], by simp, ?_⟩
      simpa using hp

/- By induction on the calls, the lost entries add up. -/
theorem leads_calls
    (hGranted : ∀ n, allocator n = true)
    {map : KMap}
    {σ : ClassMap hCons.setoid KObjectRef}
    (hRef : Refines hCons map σ)
    (cs : List MapCall)
    (own : List Nat)
    (L : Ledger) :
    Leads (map.Has own L) (map.calls allocator cs)
      (fun r p =>
        ∃ lost : List KMapEntry,
          (lost = [] ↔ σ.RemovesAbsent cs) ∧
          r.1.Has own (L + Owned.allHolds lost) p) := by
  induction cs generalizing map σ L with
  | nil =>
      apply Leads.ret
      intro p hp
      refine ⟨[], by simp [ClassMap.RemovesAbsent], ?_⟩
      simpa using hp
  | cons c cs ih =>
      intro p hp
      have hOwned := leads_call allocator hRef c own L p hp
      have hRefined :=
        runs_call (A := False) hGranted hRef c p
          (Process.not_refused_of_granted hGranted)
      unfold calls
      rw [wp_bind]
      apply wp_mono (wp_and hOwned hRefined)
      · intro r q hq
        rcases r with ⟨next, result⟩
        rcases hq with ⟨⟨lost, hLost, hHas⟩, _, hNext, _⟩
        rw [wp_bind]
        apply wp_imp (ih hNext _ q hHas)
        intro s q' hq'
        rcases hq' with ⟨more, hMore, hHas'⟩
        refine ⟨lost ++ more, ?_, ?_⟩
        · rw [List.append_eq_nil_iff, hLost, hMore]
          rfl
        · rw [Owned.allHolds_append, ← add_assoc]
          exact hHas'
      · intro _ _ _
        exact True.intro

end KMap

end KDoth

------------------------------------------------------------
-- Main Result
------------------------------------------------------------

namespace KDoth

namespace KMap

open Command

variable {hash : KObjectRef → UInt64}
variable {equal : KObjectRef → KObjectRef → Bool}
variable {allocator : Allocator}

/- The entries that a session lost are still referenced. -/
theorem session_loses
    (hCons : ConsistentHash hash equal)
    (hGranted : ∀ n, allocator n = true)
    {n : Nat}
    (hNonempty : 1 ≤ n)
    (hBounded : n < 2 ^ 28)
    (cs : List MapCall)
    (p : Process) :
    Returns (session allocator hash equal n cs) p
      (fun r q =>
        ∃ (map : KMap) (results : List MapResult)
            (lost : List KMapEntry),
          r = some (map, results) ∧ map.Shaped ∧
            (lost = [] ↔
              (ClassMap.empty :
                ClassMap hCons.setoid
                  KObjectRef).RemovesAbsent cs) ∧
            map.Has [] (p.references + Owned.allHolds lost)
              q) := by
  have hClean : ¬ p.Refused allocator :=
    Process.not_refused_of_granted hGranted
  have hRuns :=
    runs_session (A := False) hGranted hCons hNonempty
      hBounded cs p hClean
  have hLeads :
      Leads (Owns [] p.references)
        (session allocator hash equal n cs)
        (fun r q =>
          ∀ map results, r = some (map, results) →
            ∃ lost : List KMapEntry,
              (lost = [] ↔
                (ClassMap.empty :
                  ClassMap hCons.setoid
                    KObjectRef).RemovesAbsent cs) ∧
              map.Has [] (p.references + Owned.allHolds lost)
                q) := by
    intro q hq
    have hCreated :=
      leads_allocWithBucketCount allocator hash equal n [] _ q hq
    have hEmpty :=
      runs_create (A := False) hGranted hCons hNonempty
        hBounded q (Process.not_refused_of_granted hGranted)
    unfold session
    rw [wp_bind]
    apply wp_mono (wp_and hCreated hEmpty)
    · intro r q' hr
      rcases hr with ⟨hHas, _, map, hSome, hRef⟩
      subst hSome
      rw [wp_bind]
      have hMap := hasOrNull_some.mp hHas
      apply wp_imp (leads_calls hGranted hRef cs [] _ q' hMap)
      intro s q'' hs map' results hEq
      cases hEq
      exact hs
    · intro _ _ _
      exact True.intro
  have hStart : Owns [] p.references p := by
    constructor
    · rfl
    · exact List.nodup_nil
    · intro a ha
      cases ha
  apply returns_iff_wp.mpr
  apply wp_mono (wp_and hRuns (hLeads p hStart))
  · intro r q hr
    rcases hr with ⟨⟨_, map, hSome, τ, hRef⟩, hAll⟩
    rcases hAll map _ hSome with ⟨lost, hLost, hHas⟩
    exact ⟨map, _, lost, hSome, hRef.shaped, hLost, hHas⟩
  · intro e q hStop
    exact StopsAt.not_of_granted hGranted hStop.1

/- References exceed the start by those of lost entries. -/
theorem forall_eq_add_holds_iff
    {references before holds : Ledger}
    {lost : List KMapEntry}
    (hEq :
      references =
        before + Owned.allHolds lost + holds) :
    (∀ o, references o = before o + holds o) ↔ lost = [] := by
  rw [← allHolds_eq_zero_iff lost]
  constructor
  · intro hAll
    funext o
    have hAt := hAll o
    rw [hEq] at hAt
    simp only [Pi.add_apply] at hAt
    rw [Pi.zero_apply]
    omega
  · intro hZero o
    rw [hEq, hZero, add_zero, Pi.add_apply]

/-
  After any sequence of calls, the references of the library
  to the client's objects exceed those before the map was
  created by exactly the live references if and only if no
  removal hit a key of the map, and releasing the map then
  gives all of them back if and only if no removal did.
-/
theorem session_conserves_iff
    (hash : KObjectRef → UInt64)
    (equal : KObjectRef → KObjectRef → Bool)
    (hCons : ConsistentHash hash equal)
    (allocator : Allocator)
    (hGranted : ∀ n, allocator n = true)
    (bucketCount : Nat)
    (hNonempty : 1 ≤ bucketCount)
    (hBounded : bucketCount < 2 ^ 28)
    (cs : List MapCall)
    (p : Process) :
    Returns (session allocator hash equal bucketCount cs) p
      (fun r q =>
        ∃ map results,
          r = some (map, results) ∧
            ((∀ o,
                q.references o =
                  p.references o + map.liveReferences o) ↔
              (ClassMap.empty :
                ClassMap hCons.setoid
                  KObjectRef).RemovesAbsent cs) ∧
            Returns (KObject.release map) q
              (fun _ q' =>
                (∀ o, q'.references o = p.references o) ↔
                  (ClassMap.empty :
                    ClassMap hCons.setoid
                      KObjectRef).RemovesAbsent cs)) := by
  apply
    (session_loses hCons hGranted hNonempty hBounded cs p).mono
  intro r q hr
  rcases hr with
    ⟨map, results, lost, hSome, hShaped, hLost, hHas⟩
  refine ⟨map, results, hSome, ?_, ?_⟩
  · rw [← hLost, ← forall_eq_add_holds_iff hHas.references]
    simp only [holds_eq_liveReferences]
  · have hSafe :=
      SafeObject.runs_release allocator False map
        hShaped.wellBuilt q
        (Process.not_refused_of_granted hGranted)
    have hGiven := Owned.leads_release map _ _ q hHas
    apply returns_iff_wp.mpr
    apply wp_mono (wp_and hSafe hGiven)
    · intro _ q' hq'
      have hAfter :
          q'.references =
            p.references + Owned.allHolds lost + 0 := by
        rw [add_zero]
        exact hq'.2.references
      rw [← hLost, ← forall_eq_add_holds_iff hAfter]
      simp only [Pi.zero_apply, add_zero]
    · intro e q' hStop
      exact StopsAt.not_of_granted hGranted hStop.1

/- Keys compared by identity, and a value overwritten. -/
theorem session_conserves_iff_overwrite :
    Returns
      (session (fun _ => true) (fun _ => 7)
        (fun a b => decide (a = b)) 1
        [.setValue ⟨1⟩ ⟨10⟩, .setValue ⟨1⟩ ⟨20⟩])
      Process.initial
      (fun r q =>
        ∃ map results,
          r = some (map, results) ∧
            ((∀ o,
                q.references o = 0 + map.liveReferences o) ↔
              (ClassMap.empty :
                ClassMap
                  (ConsistentHash.identity
                    (fun _ => 7)).setoid
                  KObjectRef).RemovesAbsent
                  [.setValue ⟨1⟩ ⟨10⟩,
                    .setValue ⟨1⟩ ⟨20⟩]) ∧
            Returns (KObject.release map) q
              (fun _ q' =>
                (∀ o, q'.references o = 0) ↔
                  (ClassMap.empty :
                    ClassMap
                      (ConsistentHash.identity
                        (fun _ => 7)).setoid
                      KObjectRef).RemovesAbsent
                      [.setValue ⟨1⟩ ⟨10⟩,
                        .setValue ⟨1⟩ ⟨20⟩])) :=
  session_conserves_iff _ _
    (ConsistentHash.identity fun _ => 7) (fun _ => true)
    (fun _ => rfl) 1 (by decide) (by decide) _
    Process.initial

/-
  After a key was stored and removed, the references are not
  those of the entries.
-/
theorem session_set_remove
    (hCons : ConsistentHash hash equal)
    (hGranted : ∀ n, allocator n = true)
    {n : Nat}
    (hNonempty : 1 ≤ n)
    (hBounded : n < 2 ^ 28)
    (key value : KObjectRef)
    (p : Process) :
    Returns
      (session allocator hash equal n
        [.setValue key value, .removeValue key]) p
      (fun r q =>
        ∃ map results,
          r = some (map, results) ∧
            ¬ ∀ o,
              q.references o =
                p.references o + map.liveReferences o) := by
  apply
    (session_loses hCons hGranted hNonempty hBounded _ p).mono
  intro r q hr
  rcases hr with
    ⟨map, results, lost, hSome, _, hLost, hHas⟩
  refine ⟨map, results, hSome, ?_⟩
  intro hAll
  have hNone : lost = [] := by
    rw [← forall_eq_add_holds_iff hHas.references]
    simp only [holds_eq_liveReferences]
    exact hAll
  rcases hLost.mp hNone with ⟨_, hRemoved, _⟩
  have hAbsent := hRemoved key rfl
  simp [ClassMap.call, ClassMap.insert, ClassMap.get]
    at hAbsent

/- A removed key leaks in a map with the initial buckets. -/
theorem session_leaks_removed :
    Returns
      (session (fun _ => true) (fun _ => 7)
        (fun a b => decide (a = b)) kMapInitialBucketsSize
        [.setValue ⟨1⟩ ⟨10⟩, .removeValue ⟨1⟩])
      Process.initial
      (fun r q =>
        ∃ map results,
          r = some (map, results) ∧
            ¬ ∀ o,
              q.references o =
                Process.initial.references o +
                  map.liveReferences o) := by
  have hBounded : kMapInitialBucketsSize < 2 ^ 28 := by
    unfold kMapInitialBucketsSize
    omega
  exact
    session_set_remove (ConsistentHash.identity fun _ => 7)
      (fun _ => rfl) (by decide) hBounded ⟨1⟩ ⟨10⟩
      Process.initial

end KMap

end KDoth
