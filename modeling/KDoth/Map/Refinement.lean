import KDoth.Foundations.ClassMap
import KDoth.Map.Rehash
import KDoth.Strings.KString

/-
  A map on non-NULL keys and values refines a finite map on
  the classes of equal keys.

  Key definitions include:
    * `MapCall`
    * `KMap.call`
    * `KMap.session`
    * `ClassMap.call`
    * `KMap.Refines`

  Key theorems include:
    * `KMap.runs_call`
    * `KMap.runs_session`
    * `KString.consistentHash`
    * `KMap.session_refines_classMap`
-/

------------------------------------------------------------
-- Calls On A Map
------------------------------------------------------------

namespace KDoth

/- The calls on a map, with keys and values not NULL. -/
inductive MapCall where
  | setValue (key value : KObjectRef)
  | getValue (key : KObjectRef)
  | removeValue (key : KObjectRef)
  | getCount
deriving DecidableEq, Repr

inductive MapResult where
  | flag (success : Bool)
  | value (value : Option KObjectRef)
  | count (count : Nat)
deriving DecidableEq, Repr

namespace KMap

/- One call on a map. -/
def call
    (allocator : Allocator)
    (map : KMap) : MapCall → Call (KMap × MapResult)
| .setValue key value => do
    let (map, set) ←
      map.setValue allocator (some key) (some value)
    pure (map, .flag set)
| .getValue key =>
    pure (map, .value (map.getValue (some key)))
| .removeValue key =>
    pure
      ((map.removeValue (some key)).1,
        .flag (map.removeValue (some key)).2)
| .getCount => pure (map, .count map.getCount)

/- A sequence of calls on a map. -/
def calls
    (allocator : Allocator) :
    KMap → List MapCall → Call (KMap × List MapResult)
| map, [] => pure (map, [])
| map, c :: cs => do
    let (map, result) ← map.call allocator c
    let (map, results) ← calls allocator map cs
    pure (map, result :: results)

/- Create a map and call it. NULL is `none`. -/
def session
    (allocator : Allocator)
    (hash : KObjectRef → UInt64)
    (equal : KObjectRef → KObjectRef → Bool)
    (bucketCount : Nat)
    (cs : List MapCall) :
    Call (Option (KMap × List MapResult)) := do
  match ←
    allocWithBucketCount allocator hash equal bucketCount with
  | none => pure none
  | some map =>
      let r ← map.calls allocator cs
      pure (some r)

end KMap

end KDoth

------------------------------------------------------------
-- Calls On A Map Of Classes
------------------------------------------------------------

namespace KDoth

namespace ClassMap

variable {S : Setoid KObjectRef}

/- What a call means on a finite map of key classes. -/
noncomputable def call
    (σ : ClassMap S KObjectRef) :
    MapCall → ClassMap S KObjectRef × MapResult
| .setValue key value => (σ.insert key value, .flag true)
| .getValue key => (σ, .value (σ.get key))
| .removeValue key => (σ.erase key, .flag (σ.get key).isSome)
| .getCount => (σ, .count σ.count)

/- The results of a sequence of calls. -/
noncomputable def results :
    ClassMap S KObjectRef → List MapCall → List MapResult
| _, [] => []
| σ, c :: cs => (σ.call c).2 :: results (σ.call c).1 cs

/- Forgetting a class without a value changes nothing. -/
theorem erase_absent
    {σ : ClassMap S KObjectRef}
    {k : KObjectRef}
    (hNone : σ.get k = none) :
    σ.erase k = σ := by
  funext q
  by_cases hq : q = Quotient.mk S k
  · rw [hq]
    simpa [erase, get] using hNone.symm
  · simp [erase, hq]

end ClassMap

end KDoth

------------------------------------------------------------
-- Refinement
------------------------------------------------------------

namespace KDoth

namespace KMap

variable {hash : KObjectRef → UInt64}
variable {equal : KObjectRef → KObjectRef → Bool}
variable {hCons : ConsistentHash hash equal}

/- The pairs of the map represent the map of classes. -/
structure Refines
    (hCons : ConsistentHash hash equal)
    (map : KMap)
    (σ : ClassMap hCons.setoid KObjectRef) : Prop where
  shaped : map.Shaped
  hash : map.hash = hash
  equal : map.equal = equal
  represents : ClassMap.Represents map.contents σ

namespace Refines

variable {map : KMap}
variable {σ : ClassMap hCons.setoid KObjectRef}

theorem consistentHash
    (hRef : Refines hCons map σ) :
    ConsistentHash map.hash map.equal := by
  rw [hRef.hash, hRef.equal]
  exact hCons

/- Inequivalent keys are not equal. -/
theorem distinct
    (hRef : Refines hCons map σ) :
    map.Distinct := by
  unfold Distinct
  rw [hRef.equal]
  apply hRef.represents.1.imp
  intro x y hNe
  by_contra hNot
  apply hNe
  change equal x.1 y.1 = true
  simpa using hNot

/- The search of a present key finds its pair. -/
theorem present
    (hRef : Refines hCons map σ)
    {key : KObjectRef}
    {old : KObjectRef × KObjectRef}
    {rest : List (KObjectRef × KObjectRef)}
    (hPresent : map.Present key old rest) :
    ClassMap.Represents (old :: rest) σ ∧
      hCons.setoid key old.1 := by
  constructor
  · exact hRef.represents.perm hPresent.contents
  · have hEqual := hPresent.equal
    rw [hRef.equal] at hEqual
    exact hEqual

/- An absent key is equivalent to no key of the map. -/
theorem absent
    (hRef : Refines hCons map σ)
    {key : KObjectRef}
    (hAbsent : map.Absent key) :
    ∀ x ∈ map.contents, ¬ hCons.setoid key x.1 := by
  intro x hx hEquiv
  have hEqual : equal key x.1 = true := hEquiv
  have hNot :=
    hAbsent.forall_contents hRef.consistentHash x hx
  rw [hRef.equal, hEqual] at hNot
  cases hNot

/- Storing inserts into the map of classes. -/
theorem insert
    (hRef : Refines hCons map σ)
    {key value : KObjectRef}
    {mid map' : KMap}
    (hStored : Stored map key value mid)
    (hTable : SameTable map mid)
    (hAfter : Rehashed mid map') :
    Refines hCons map' (σ.insert key value) := by
  constructor
  · exact hAfter.shaped
  · rw [hAfter.hash, hTable.hash, hRef.hash]
  · rw [hAfter.equal, hTable.equal, hRef.equal]
  · apply ClassMap.Represents.perm hAfter.contents.symm
    cases hStored with
    | found old rest hOld hNew _ =>
        rcases hRef.present hOld with ⟨hRep, hKey⟩
        apply ClassMap.Represents.perm hNew.symm
        exact hRep.insert_present value hKey
    | fresh hFresh hNew _ =>
        apply ClassMap.Represents.perm hNew.symm
        exact
          hRef.represents.insert_fresh value
            (hRef.absent hFresh)

/- Reading reads the map of classes. -/
theorem getValue
    (hRef : Refines hCons map σ)
    (key : KObjectRef) :
    map.getValue (some key) = σ.get key := by
  rcases getValue_spec hRef.shaped.toBuilt key with
    ⟨old, rest, hPresent, hGet⟩ | ⟨hAbsent, hGet⟩
  · rcases hRef.present hPresent with ⟨hRep, hKey⟩
    rw [hGet, hRep.get_of_mem List.mem_cons_self hKey]
  · rw [hGet,
      hRef.represents.get_eq_none (hRef.absent hAbsent)]

/- Removing erases from the map of classes. -/
theorem removeValue
    (hRef : Refines hCons map σ)
    (key : KObjectRef) :
    (map.removeValue (some key)).2 = (σ.get key).isSome ∧
      Refines hCons (map.removeValue (some key)).1
        (σ.erase key) := by
  rcases removeValue_spec hRef.shaped key with
    ⟨old, rest, hPresent, hTrue, hShaped, hTable, hRest⟩ |
      ⟨hAbsent, hSame⟩
  · rcases hRef.present hPresent with ⟨hRep, hKey⟩
    have hGet := hRep.get_of_mem List.mem_cons_self hKey
    constructor
    · rw [hTrue, hGet]
      rfl
    · constructor
      · exact hShaped
      · rw [hTable.hash, hRef.hash]
      · rw [hTable.equal, hRef.equal]
      · apply ClassMap.Represents.perm hRest.symm
        exact hRep.erase_present hKey
  · have hGet :=
      hRef.represents.get_eq_none (hRef.absent hAbsent)
    rw [hSame, hGet, ClassMap.erase_absent hGet]
    exact ⟨rfl, hRef⟩

/- The object count is the number of classes. -/
theorem getCount
    (hRef : Refines hCons map σ) :
    map.getCount = σ.count := by
  rw [hRef.represents.count_eq, length_contents]
  exact hRef.shaped.count

end Refines

end KMap

end KDoth

------------------------------------------------------------
-- Sequences Of Calls
------------------------------------------------------------

namespace KDoth

namespace KMap

variable {hash : KObjectRef → UInt64}
variable {equal : KObjectRef → KObjectRef → Bool}
variable {hCons : ConsistentHash hash equal}
variable {allocator : Allocator} {A : Prop}

/- A call does to the map what it does to the classes. -/
theorem runs_call
    (hGranted : ∀ n, allocator n = true)
    {map : KMap}
    {σ : ClassMap hCons.setoid KObjectRef}
    (hRef : Refines hCons map σ)
    (c : MapCall) :
    Runs allocator A (map.call allocator c)
      (fun r =>
        Refines hCons r.1 (σ.call c).1 ∧
          r.2 = (σ.call c).2) := by
  cases c with
  | setValue key value =>
      have hSet :
          Runs allocator A
            (map.setValue allocator (some key) (some value))
            (SetResult allocator map key value) :=
        runs_setValue hRef.shaped key value
          (Or.inr ⟨hRef.consistentHash, hRef.distinct⟩)
      apply Runs.bind hSet
      intro r hr
      rcases r with ⟨map', set⟩
      cases set with
      | false =>
          rcases (hr.refused rfl).2 with ⟨n, hNo⟩
          rw [hGranted n] at hNo
          cases hNo
      | true =>
          rcases hr.stored rfl with
            ⟨mid, hStored, hTable, _, hAfter⟩
          apply Runs.ret
          exact ⟨hRef.insert hStored hTable hAfter, rfl⟩
  | getValue key =>
      apply Runs.ret
      exact ⟨hRef, congrArg MapResult.value (hRef.getValue key)⟩
  | removeValue key =>
      rcases hRef.removeValue key with ⟨hFlag, hNext⟩
      apply Runs.ret
      exact ⟨hNext, congrArg MapResult.flag hFlag⟩
  | getCount =>
      apply Runs.ret
      exact ⟨hRef, congrArg MapResult.count hRef.getCount⟩

/- By induction on the calls, the results agree. -/
theorem runs_calls
    (hGranted : ∀ n, allocator n = true)
    {map : KMap}
    {σ : ClassMap hCons.setoid KObjectRef}
    (hRef : Refines hCons map σ)
    (cs : List MapCall) :
    Runs allocator A (map.calls allocator cs)
      (fun r =>
        (∃ τ, Refines hCons r.1 τ) ∧ r.2 = σ.results cs) := by
  induction cs generalizing map σ with
  | nil =>
      apply Runs.ret
      exact ⟨⟨σ, hRef⟩, rfl⟩
  | cons c cs ih =>
      apply Runs.bind (runs_call hGranted hRef c)
      intro r hr
      rcases r with ⟨map', result⟩
      have hNext : Refines hCons map' (σ.call c).1 := hr.1
      have hResult : result = (σ.call c).2 := hr.2
      apply Runs.bind (ih hNext)
      intro r' hr'
      rcases r' with ⟨map'', rest⟩
      have hRest : rest = (σ.call c).1.results cs := hr'.2
      apply Runs.ret
      constructor
      · exact hr'.1
      · rw [hResult, hRest]
        rfl

/- A map is created empty when all requests are granted. -/
theorem runs_create
    (hGranted : ∀ n, allocator n = true)
    (hCons : ConsistentHash hash equal)
    {n : Nat}
    (hNonempty : 1 ≤ n)
    (hBounded : n < 2 ^ 28) :
    Runs allocator A
      (allocWithBucketCount allocator hash equal n)
      (fun r =>
        ∃ map,
          r = some map ∧ Refines hCons map ClassMap.empty) := by
  apply (runs_allocWithBucketCount hash equal n).mono
  intro r hr
  cases r with
  | none =>
      rcases hr.1 rfl with hZero | ⟨i, hNo⟩ | hBig
      · omega
      · rw [hGranted i] at hNo
        cases hNo
      · omega
  | some map =>
      have hFresh := hr.2 map rfl
      refine ⟨map, rfl, ?_⟩
      constructor
      · exact hFresh.shaped
      · exact hFresh.hash
      · exact hFresh.equal
      · rw [hFresh.contents]
        exact ClassMap.Represents.nil

/- Creating a map and calling it. -/
theorem runs_session
    (hGranted : ∀ n, allocator n = true)
    (hCons : ConsistentHash hash equal)
    {n : Nat}
    (hNonempty : 1 ≤ n)
    (hBounded : n < 2 ^ 28)
    (cs : List MapCall) :
    Runs allocator A (session allocator hash equal n cs)
      (fun r =>
        ∃ map,
          r = some
              (map,
                (ClassMap.empty :
                  ClassMap hCons.setoid KObjectRef).results
                  cs) ∧
            ∃ τ, Refines hCons map τ) := by
  apply
    Runs.bind (runs_create hGranted hCons hNonempty hBounded)
  intro r hr
  rcases hr with ⟨map, hSome, hRef⟩
  subst hSome
  apply Runs.bind (runs_calls hGranted hRef cs)
  intro s hs
  rcases s with ⟨map', results⟩
  have hResults :
      results = ClassMap.empty.results cs := hs.2
  apply Runs.ret
  exact ⟨map', by rw [hResults], hs.1⟩

end KMap

end KDoth

------------------------------------------------------------
-- Strings As Keys
------------------------------------------------------------

namespace KDoth

/-
  Hash and equality of strings are consistent, for strings
  that are found at their addresses.
-/
theorem KString.consistentHash
    (strings : KObjectRef → KString)
    (hAddress : ∀ o, (strings o).address = o.address) :
    ConsistentHash
      (fun o => KString.getHash (some (strings o)))
      (fun a b =>
        KString.isEqual (some (strings a))
          (some (strings b))) := by
  have hIff :
      ∀ a b,
        KString.isEqual (some (strings a))
            (some (strings b)) = true ↔
          (strings a).size = (strings b).size ∧
            (strings a).bytes = (strings b).bytes := by
    intro a b
    rw [KString.isEqual_iff]
    constructor
    · intro h
      rcases h with hSame | hBytes
      · have hEq : a = b := by
          rw [hAddress, hAddress] at hSame
          cases a
          cases b
          cases hSame
          rfl
        rw [hEq]
        exact ⟨rfl, rfl⟩
      · exact hBytes
    · intro h
      exact Or.inr h
  constructor
  · intro a
    rw [hIff]
    exact ⟨rfl, rfl⟩
  · intro a b h
    rw [hIff] at h ⊢
    exact ⟨h.1.symm, h.2.symm⟩
  · intro a b c hab hbc
    rw [hIff] at hab hbc ⊢
    exact ⟨hab.1.trans hbc.1, hab.2.trans hbc.2⟩
  · intro a b h
    rw [hIff] at h
    simp only [KString.getHash, h.2]

end KDoth

------------------------------------------------------------
-- Main Result
------------------------------------------------------------

namespace KDoth

namespace KMap

/-
  With consistent functions and an allocator that grants
  every request, a map that is created with some buckets
  answers any sequence of calls like a finite map on key
  classes, starting from the empty one. The hash and the
  equality of strings are consistent.
-/
theorem session_refines_classMap
    (hash : KObjectRef → UInt64)
    (equal : KObjectRef → KObjectRef → Bool)
    (hCons : ConsistentHash hash equal)
    (allocator : Allocator)
    (hGranted : ∀ n, allocator n = true)
    (bucketCount : Nat)
    (hNonempty : 1 ≤ bucketCount)
    (hBounded : bucketCount < 2 ^ 28)
    (cs : List MapCall)
    (p : Process) :
    Command.Returns
        (session allocator hash equal bucketCount cs) p
        (fun r _ =>
          ∃ map,
            r = some
              (map,
                (ClassMap.empty :
                  ClassMap hCons.setoid KObjectRef).results
                  cs)) ∧
      ∀ strings : KObjectRef → KString,
        (∀ o, (strings o).address = o.address) →
          ConsistentHash
            (fun o => KString.getHash (some (strings o)))
            (fun a b =>
              KString.isEqual (some (strings a))
                (some (strings b))) := by
  constructor
  · have hRuns :=
      runs_session (A := False) hGranted hCons hNonempty
        hBounded cs p (Process.not_refused_of_granted hGranted)
    apply Command.returns_iff_wp.mpr
    apply Command.wp_mono hRuns
    · intro r p' hr
      rcases hr.2 with ⟨map, hSome, _⟩
      exact ⟨map, hSome⟩
    · intro e p' hStop
      exact StopsAt.not_of_granted hGranted hStop
  · exact KString.consistentHash

/- Keys compared by identity whose hashes all collide. -/
theorem session_refines_classMap_collisions :
    Command.Returns
      (session (fun _ => true) (fun _ => 7)
        (fun a b => decide (a = b)) 1
        [.setValue ⟨1⟩ ⟨10⟩, .setValue ⟨2⟩ ⟨20⟩,
          .removeValue ⟨1⟩, .getValue ⟨2⟩, .getCount])
      Process.initial
      (fun r _ =>
        ∃ map,
          r = some
            (map,
              (ClassMap.empty :
                ClassMap
                  (ConsistentHash.identity
                    (fun _ => 7)).setoid KObjectRef).results
                [.setValue ⟨1⟩ ⟨10⟩, .setValue ⟨2⟩ ⟨20⟩,
                  .removeValue ⟨1⟩, .getValue ⟨2⟩,
                  .getCount])) :=
  (session_refines_classMap _ _
    (ConsistentHash.identity fun _ => 7) (fun _ => true)
    (fun _ => rfl) 1 (by decide) (by decide) _
    Process.initial).1

end KMap

end KDoth
