import KDoth.Runtime.Ownership

/-
  Library objects that a call does not touch: it neither
  reads nor writes their reference counts.

  Key definitions include:
    * `Ignores`
    * `Located`

  Key theorems include:
    * `Ignores.bind`
    * `Ignores.refCount_eq`
-/

------------------------------------------------------------
-- Counts That Are Not Touched
------------------------------------------------------------

namespace KDoth

open Command

namespace Process

/- Writing a count that is there changes nothing. -/
theorem setCount_self
    (p : Process)
    (a : Nat) :
    p.setCount a (p.refCount a) = p := by
  unfold setCount
  rw [Function.update_eq_self]

/- Counts of different objects are written in any order. -/
theorem setCount_comm
    (p : Process)
    {a b : Nat}
    (hNe : a ≠ b)
    (m n : Nat) :
    (p.setCount a m).setCount b n =
      (p.setCount b n).setCount a m := by
  unfold setCount
  rw [Function.update_comm hNe]

end Process

/-
  With another count at the address of an existing object the
  call does the same, and its value is in `R`.
-/
def Ignores
    {α : Type}
    (a : Nat)
    (c : Call α)
    (R : α → Prop) : Prop :=
  ∀ (p : Process) (n : Nat),
    a < p.nextAddress →
      wp c
        (fun x q =>
          c (p.setCount a n) = .ok x (q.setCount a n) ∧
            a < q.nextAddress ∧ R x)
        (fun e q =>
          c (p.setCount a n) = .error e (q.setCount a n)) p

namespace Ignores

variable {α β : Type} {a : Nat}

/- In particular the count stays what it is. -/
theorem refCount_eq
    {c : Call α}
    {R : α → Prop}
    (hIgnores : Ignores a c R)
    {p q : Process}
    {x : α}
    (hLt : a < p.nextAddress)
    (hRun : c p = .ok x q) :
    q.refCount a = p.refCount a := by
  have hSame := hIgnores p (p.refCount a) hLt
  unfold wp at hSame
  rw [p.setCount_self a, hRun] at hSame
  injection hSame.1 with _ hEq
  have hCount := congrArg (fun s => s.refCount a) hEq
  simpa using hCount

/- A run with another count. -/
theorem run_setCount
    {c : Call α}
    {R : α → Prop}
    (hIgnores : Ignores a c R)
    {p q : Process}
    {x : α}
    (hLt : a < p.nextAddress)
    (hRun : c p = .ok x q)
    (n : Nat) :
    c (p.setCount a n) = .ok x (q.setCount a n) ∧ R x := by
  have hSame := hIgnores p n hLt
  unfold wp at hSame
  rw [hRun] at hSame
  exact ⟨hSame.1, hSame.2.2⟩

theorem ret
    {x : α}
    {R : α → Prop}
    (hR : R x) :
    Ignores a (pure x) R := by
  intro p n hLt
  exact ⟨rfl, hLt, hR⟩

theorem stop
    {e : Stop}
    {R : α → Prop} :
    Ignores a (throw e) R := by
  intro p n _
  exact rfl

theorem bind
    {c : Call β}
    {f : β → Call α}
    {R : β → Prop}
    {S : α → Prop}
    (hFirst : Ignores a c R)
    (hNext : ∀ x, R x → Ignores a (f x) S) :
    Ignores a (c >>= f) S := by
  intro p n hLt
  have hRun := hFirst p n hLt
  rw [wp_bind]
  unfold wp at hRun ⊢
  cases hc : c p with
  | ok x q =>
      simp only [hc] at hRun ⊢
      rcases hRun with ⟨hSame, hLonger, hR⟩
      rw [bind_of_ok hSame]
      exact hNext x hR q n hLonger
  | error e q =>
      simp only [hc] at hRun ⊢
      exact bind_of_error hRun

theorem mono
    {c : Call α}
    {R S : α → Prop}
    (hIgnores : Ignores a c R)
    (hR : ∀ x, R x → S x) :
    Ignores a c S := by
  intro p n hLt
  apply wp_imp (hIgnores p n hLt)
  intro x q hx
  exact ⟨hx.1, hx.2.1, hR x hx.2.2⟩

theorem ofRequest
    {allocator : Allocator}
    {site : AllocationSite} :
    Ignores a (request allocator site) (fun _ => True) := by
  intro p n hLt
  exact ⟨rfl, hLt, True.intro⟩

theorem ofStrayed :
    Ignores a (modify Process.strayed) (fun _ => True) := by
  intro p n hLt
  exact ⟨rfl, hLt, True.intro⟩

theorem ofAssert
    {condition : Bool} :
    Ignores a (kAssert condition) (fun _ => True) := by
  cases condition with
  | true => exact ret True.intro
  | false => exact stop

/- A new object is another one. -/
theorem ofObjectNew
    {allocator : Allocator}
    {clasz : ObjectClass} :
    Ignores a (objectNew allocator clasz)
      (fun r => r ≠ some a) := by
  intro p n hLt
  have hNe : p.nextAddress ≠ a := by omega
  rw [wp_objectNew, objectNew_apply, Process.setCount_requests]
  cases allocator p.requests.length with
  | true =>
      have hCreated :
          ((p.setCount a n).requested
              (.objectNew clasz)).created =
            ((p.requested (.objectNew clasz)).created).setCount
              a n := by
        have hComm :=
          Function.update_comm hNe.symm n 1 p.refCount
        simp [Process.created, Process.setCount,
          Process.requested, hComm]
      refine ⟨?_, Nat.lt_succ_of_lt hLt, ?_⟩
      · rw [← hCreated]
        rfl
      · simpa using hNe
  | false => exact ⟨rfl, hLt, by simp⟩

/- The rest of a call after it makes an object. -/
theorem bind_objectNew
    {allocator : Allocator}
    {clasz : ObjectClass}
    {f : Option Nat → Call α}
    {S : α → Prop}
    (hNone : Ignores a (f none) S)
    (hSome :
      ∀ address,
        a ≠ address → Ignores a (f (some address)) S) :
    Ignores a (objectNew allocator clasz >>= f) S := by
  apply bind ofObjectNew
  intro address hAddress
  cases address with
  | none => exact hNone
  | some address =>
      apply hSome
      intro hEq
      exact hAddress (by rw [hEq])

theorem ofObjectRetain
    {b : Nat}
    (hNe : a ≠ b) :
    Ignores a (objectRetain b) (fun _ => True) := by
  intro p n hLt
  refine ⟨?_, hLt, True.intro⟩
  have hCount : (p.setCount a n).refCount b = p.refCount b := by
    simp [hNe.symm]
  change
    EStateM.Result.ok PUnit.unit
        ((p.setCount a n).setCount b
          ((p.setCount a n).refCount b + 1)) =
      .ok PUnit.unit
        ((p.setCount b (p.refCount b + 1)).setCount a n)
  rw [hCount, p.setCount_comm hNe]

theorem ofObjectRelease
    {b : Nat}
    {deInit : Call Unit}
    (hNe : a ≠ b)
    (hDeInit : Ignores a deInit (fun _ => True)) :
    Ignores a (objectRelease b deInit) (fun _ => True) := by
  intro p n hLt
  have hCount : (p.setCount a n).refCount b = p.refCount b := by
    simp [hNe.symm]
  rw [wp_objectRelease, objectRelease_apply, hCount]
  by_cases hLast : p.refCount b = 1
  · rw [if_pos hLast, if_pos hLast, p.setCount_comm hNe]
    exact hDeInit (p.setCount b 0) n hLt
  · rw [if_neg hLast, if_neg hLast, p.setCount_comm hNe]
    exact ⟨rfl, hLt, True.intro⟩

theorem ofRetain
    (o : KObjectRef) :
    Ignores a (KObject.retain o) (fun _ => True) := by
  intro p n hLt
  exact ⟨rfl, hLt, True.intro⟩

theorem ofRelease
    (o : KObjectRef) :
    Ignores a (KObject.release o) (fun _ => True) := by
  intro p n hLt
  exact ⟨rfl, hLt, True.intro⟩

theorem each
    {f : β → Call PUnit}
    (l : List β)
    (hEach : ∀ b ∈ l, Ignores a (f b) (fun _ => True)) :
    Ignores a (forM l f) (fun _ => True) := by
  induction l with
  | nil => exact ret True.intro
  | cons b l ih =>
      rw [List.forM_cons]
      apply bind (hEach b List.mem_cons_self)
      intro _ _
      exact
        ih (fun c hc => hEach c (List.mem_cons_of_mem _ hc))

end Ignores

end KDoth

------------------------------------------------------------
-- Objects With Their Own Counts
------------------------------------------------------------

namespace KDoth

/-
  Keeping and releasing an object touches its own addresses
  only.
-/
class Located (α : Type) [KObject α] [Owned α] where
  ignores_retain :
    ∀ (x : α) (a : Nat),
      a ∉ Owned.addresses x →
        Ignores a (KObject.retain x) (fun _ => True)
  ignores_release :
    ∀ (x : α) (a : Nat),
      a ∉ Owned.addresses x →
        Ignores a (KObject.release x) (fun _ => True)

theorem Located.ignores_releaseOrNull
    {α : Type}
    [KObject α]
    [Owned α]
    [Located α]
    {a : Nat}
    (object : Option α)
    (hOther : a ∉ Owned.allAddresses object.toList) :
    Ignores a (KObject.releaseOrNull object)
      (fun _ => True) := by
  cases object with
  | none => exact Ignores.ret True.intro
  | some x =>
      apply Located.ignores_release x a
      simpa using hOther

end KDoth
