import KDoth.Runtime.Process
import Mathlib.Algebra.Group.Pi.Basic
import Mathlib.Algebra.BigOperators.Group.List.Basic
import Mathlib.Algebra.Order.Group.Int
import Mathlib.Tactic.Abel

/-
  Ownership of library objects.

  A command that owns some library objects holds the only
  reference to each of them. What a library object holds of
  the client's objects is accounted for in a ledger, and is
  given back when the object is released.

  Key definitions include:
    * `Ledger`
    * `Owns`
    * `Owned`
    * `Lent`

  Key theorems include:
    * `leads_objectNew`
    * `leads_objectRelease`
    * `Owned.leads_releaseAll`
-/

------------------------------------------------------------
-- Ledgers
------------------------------------------------------------

namespace KDoth

/- References held to each object of the client. -/
abbrev Ledger := KObjectRef → Int

/- One reference to an object. -/
def Ledger.one (o : KObjectRef) : Ledger :=
  Pi.single o 1

/-
  The addresses are those of different objects with one
  reference each, and the library holds the references of
  the ledger.
-/
structure Owns
    (own : List Nat)
    (ledger : Ledger)
    (p : Process) : Prop where
  references : p.references = ledger
  nodup : own.Nodup
  unique :
    ∀ a ∈ own, a < p.nextAddress ∧ p.refCount a = 1

namespace Owns

variable {own own' : List Nat} {L L' : Ledger}
variable {p : Process}

/- The order of the addresses does not matter. -/
theorem perm
    (hOwns : Owns own L p)
    (hPerm : own.Perm own') :
    Owns own' L p := by
  constructor
  · exact hOwns.references
  · exact hPerm.nodup_iff.mp hOwns.nodup
  · intro a ha
    exact hOwns.unique a (hPerm.mem_iff.mpr ha)

theorem ledger_eq
    (hOwns : Owns own L p)
    (hEq : L = L') :
    Owns own L' p := by
  rw [← hEq]
  exact hOwns

/- Forgetting an address leaks the object. -/
theorem tail
    {a : Nat}
    (hOwns : Owns (a :: own) L p) :
    Owns own L p := by
  constructor
  · exact hOwns.references
  · exact hOwns.nodup.of_cons
  · intro b hb
    exact hOwns.unique b (List.mem_cons_of_mem a hb)

/- The counts of other objects do not matter. -/
theorem setCount
    {a n : Nat}
    (hOwns : Owns own L p)
    (hOther : a ∉ own) :
    Owns own L (p.setCount a n) := by
  constructor
  · exact hOwns.references
  · exact hOwns.nodup
  · intro b hb
    have hNe : b ≠ a := by
      intro hEq
      rw [hEq] at hb
      exact hOther hb
    rw [Process.setCount_nextAddress,
      Process.setCount_refCount, Function.update_of_ne hNe]
    exact hOwns.unique b hb

theorem requested
    {site : AllocationSite}
    (hOwns : Owns own L p) :
    Owns own L (p.requested site) := by
  constructor
  · exact hOwns.references
  · exact hOwns.nodup
  · exact hOwns.unique

theorem strayed
    (hOwns : Owns own L p) :
    Owns own L p.strayed := by
  constructor
  · exact hOwns.references
  · exact hOwns.nodup
  · exact hOwns.unique

/- A new object is owned by its creator. -/
theorem created
    (hOwns : Owns own L p) :
    Owns (p.nextAddress :: own) L p.created := by
  have hFresh : p.nextAddress ∉ own := by
    intro hMem
    have hLt := (hOwns.unique _ hMem).1
    omega
  constructor
  · exact hOwns.references
  · exact List.nodup_cons.mpr ⟨hFresh, hOwns.nodup⟩
  · intro a ha
    rw [Process.created_nextAddress, Process.created_refCount]
    rcases List.mem_cons.mp ha with hNew | hOld
    · subst hNew
      rw [Function.update_self]
      exact ⟨Nat.lt_succ_self _, rfl⟩
    · have hNe : a ≠ p.nextAddress := by
        intro hEq
        rw [hEq] at hOld
        exact hFresh hOld
      have hUnique := hOwns.unique a hOld
      rw [Function.update_of_ne hNe]
      exact ⟨Nat.lt_succ_of_lt hUnique.1, hUnique.2⟩

/- References to objects of the client change the ledger. -/
theorem addReferences
    {o : KObjectRef}
    {n : Int}
    (hOwns : Owns own L p) :
    Owns own (L + Pi.single o n) (p.addReferences o n) := by
  constructor
  · funext other
    rw [Process.addReferences_references, hOwns.references]
    by_cases hSame : other = o
    · subst hSame
      simp
    · simp [hSame]
  · exact hOwns.nodup
  · exact hOwns.unique

end Owns

end KDoth

------------------------------------------------------------
-- Rules
------------------------------------------------------------

namespace KDoth

open Command

variable {own own' : List Nat} {L L' : Ledger}

theorem leads_request
    {allocator : Allocator}
    {site : AllocationSite} :
    Leads (Owns own L) (request allocator site)
      (fun _ => Owns own L) := by
  intro p hp
  exact hp.requested

/- A library object, or NULL, at a new address. -/
theorem leads_objectNew
    {allocator : Allocator}
    {clasz : ObjectClass} :
    Leads (Owns own L) (objectNew allocator clasz)
      (fun r => Owns (r.toList ++ own) L) := by
  intro p hp
  rw [wp_objectNew]
  cases allocator p.requests.length with
  | true => exact hp.requested.created
  | false => exact hp.requested

/- Releasing an owned object deinitializes it. -/
theorem leads_objectRelease
    {address : Nat}
    {deInit : Call Unit}
    (hDeInit :
      Leads (Owns own L) deInit (fun _ => Owns own' L')) :
    Leads (Owns (address :: own) L)
      (objectRelease address deInit)
      (fun _ => Owns own' L') := by
  intro p hp
  have hLast : p.refCount address = 1 :=
    (hp.unique address List.mem_cons_self).2
  have hOther : address ∉ own :=
    (List.nodup_cons.mp hp.nodup).1
  rw [wp_objectRelease, if_pos hLast]
  exact hDeInit _ (hp.tail.setCount hOther)

theorem leads_retain_client
    {o : KObjectRef} :
    Leads (Owns own L) (KObject.retain o)
      (fun _ => Owns own (L + Ledger.one o)) := by
  intro p hp
  exact hp.addReferences

theorem leads_release_client
    {o : KObjectRef} :
    Leads (Owns own (L + Ledger.one o)) (KObject.release o)
      (fun _ => Owns own L) := by
  intro p hp
  rw [wp_release_client]
  apply Owns.ledger_eq hp.addReferences
  have hCancel :
      Ledger.one o + Pi.single o (-1) = (0 : Ledger) := by
    funext other
    by_cases hSame : other = o
    · subst hSame
      simp [Ledger.one]
    · simp [Ledger.one, hSame]
  rw [add_assoc, hCancel, add_zero]

end KDoth

------------------------------------------------------------
-- Owned Objects
------------------------------------------------------------

namespace KDoth

open Command

/-
  Library objects: the addresses that belong to an object,
  its own included, and the references it holds. A release by
  the only owner gives all of them back.
-/
class Owned (α : Type) [KObject α] where
  addresses : α → List Nat
  holds : α → Ledger
  leads_release :
    ∀ (x : α) (own : List Nat) (L : Ledger),
      Leads (Owns (addresses x ++ own) (L + holds x))
        (KObject.release x) (fun _ => Owns own L)
  leads_lend :
    ∀ (x : α) (own : List Nat) (L : Ledger),
      Leads (Owns (addresses x ++ own) L) (KObject.retain x)
        (fun _ p =>
          wp (KObject.release x)
            (fun _ => Owns (addresses x ++ own) L)
            (fun _ _ => True) p)

/-
  An owned object that was retained once more: releasing it
  gives back the ownership.
-/
def Lent
    {α : Type}
    [KObject α]
    [Owned α]
    (x : α)
    (own : List Nat)
    (L : Ledger)
    (p : Process) : Prop :=
  wp (KObject.release x)
    (fun _ => Owns (Owned.addresses x ++ own) L)
    (fun _ _ => True) p

/- Retaining and releasing an object with one address. -/
theorem leads_objectRetain_lend
    {address : Nat}
    {deInit : Call Unit}
    {inner own : List Nat}
    {L : Ledger} :
    Leads (Owns (address :: inner ++ own) L)
      (objectRetain address)
      (fun _ p =>
        wp (objectRelease address deInit)
          (fun _ => Owns (address :: inner ++ own) L)
          (fun _ _ => True) p) := by
  intro p hp
  have hOne : p.refCount address = 1 :=
    (hp.unique address (by simp)).2
  rw [wp_objectRetain, wp_objectRelease,
    Process.setCount_refCount, Function.update_self, hOne,
    if_neg (by decide)]
  constructor
  · exact hp.references
  · exact hp.nodup
  · intro a ha
    have hUnique := hp.unique a ha
    by_cases hSame : a = address
    · rw [hSame] at hUnique ⊢
      simpa using hUnique.1
    · simpa [hSame] using hUnique

namespace Owned

variable {α : Type} [KObject α] [Owned α]
variable {own : List Nat} {L : Ledger}

/- The addresses of a sequence of objects. -/
def allAddresses (l : List α) : List Nat :=
  l.flatMap addresses

/- The references that a sequence of objects holds. -/
def allHolds (l : List α) : Ledger :=
  (l.map holds).sum

@[simp] theorem allAddresses_nil :
    allAddresses ([] : List α) = [] :=
  rfl

@[simp] theorem allAddresses_cons
    (x : α)
    (l : List α) :
    allAddresses (x :: l) = addresses x ++ allAddresses l :=
  rfl

@[simp] theorem allAddresses_append
    (l l' : List α) :
    allAddresses (l ++ l') =
      allAddresses l ++ allAddresses l' :=
  List.flatMap_append

@[simp] theorem allHolds_nil :
    allHolds ([] : List α) = 0 :=
  rfl

@[simp] theorem allHolds_cons
    (x : α)
    (l : List α) :
    allHolds (x :: l) = holds x + allHolds l := by
  simp [allHolds]

@[simp] theorem allHolds_append
    (l l' : List α) :
    allHolds (l ++ l') = allHolds l + allHolds l' := by
  simp [allHolds]

/- By induction on the sequence, each release gives back. -/
theorem leads_releaseAll
    (l : List α)
    (own : List Nat)
    (L : Ledger) :
    Leads (Owns (allAddresses l ++ own) (L + allHolds l))
      (forM l KObject.release) (fun _ => Owns own L) := by
  induction l generalizing own L with
  | nil =>
      apply Leads.ret
      intro p hp
      simpa using hp
  | cons x l ih =>
      rw [List.forM_cons]
      have hHead :=
        leads_release x (allAddresses l ++ own)
          (L + allHolds l)
      apply Leads.bind (hHead.assuming ?_)
      · intro _
        exact ih own L
      · intro p hp
        rw [allAddresses_cons, allHolds_cons,
          List.append_assoc] at hp
        apply hp.ledger_eq
        abel

/- A released NULL gives back nothing. -/
theorem leads_releaseOrNull
    (object : Option α) :
    Leads
      (Owns (allAddresses object.toList ++ own)
        (L + allHolds object.toList))
      (KObject.releaseOrNull object) (fun _ => Owns own L) := by
  cases object with
  | none =>
      apply Leads.ret
      intro p hp
      simpa using hp
  | some x =>
      apply (leads_release x own L).assuming
      intro p hp
      simpa using hp

end Owned

end KDoth
