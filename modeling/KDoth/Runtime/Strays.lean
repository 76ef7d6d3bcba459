import KDoth.Runtime.Process

/-
  Buffers that are used after they were freed.

  A block is freed early when it is shrunk to nothing:
  `realloc` answers NULL, which the caller takes for a refusal
  and keeps the pointer. Calls are followed that use such a
  pointer exactly if they were granted such a request.

  Key definitions include:
    * `Process.Emptied`
    * `Process.Tells`
    * `Tells`
    * `SteadyObject`

  Key theorems include:
    * `Process.emptied_trans`
    * `Tells.ofRequest`
    * `Tells.ofObjectRelease`
-/

------------------------------------------------------------
-- Requests Of Size Zero
------------------------------------------------------------

namespace KDoth

namespace Process

variable {allocator : Allocator} {p q r : Process}

/-
  Among the requests made between two processes one to shrink
  a block to nothing was granted.
-/
def Emptied
    (allocator : Allocator)
    (p q : Process) : Prop :=
  ∃ i,
    p.requests.length ≤ i ∧
      q.requests[i]? = some (.truncate 0) ∧
      allocator i = true

/- Requests are made before or after a moment. -/
theorem emptied_trans
    (hFirst : List.IsPrefix p.requests q.requests)
    (hSecond : List.IsPrefix q.requests r.requests) :
    p.Emptied allocator r ↔
      p.Emptied allocator q ∨ q.Emptied allocator r := by
  have hLength := hFirst.length_le
  rcases hSecond with ⟨rest, hRequests⟩
  constructor
  · rintro ⟨i, hLe, hGet, hGranted⟩
    by_cases hi : i < q.requests.length
    · left
      rw [← hRequests, List.getElem?_append_left hi] at hGet
      exact ⟨i, hLe, hGet, hGranted⟩
    · right
      exact ⟨i, Nat.le_of_not_lt hi, hGet, hGranted⟩
  · rintro (⟨i, hLe, hGet, hGranted⟩ | ⟨i, hLe, hGet, hGranted⟩)
    · have hi := (List.getElem?_eq_some_iff.mp hGet).1
      refine ⟨i, hLe, ?_, hGranted⟩
      rw [← hRequests, List.getElem?_append_left hi]
      exact hGet
    · exact ⟨i, Nat.le_trans hLength hLe, hGet, hGranted⟩

/- Without a request no block is shrunk. -/
theorem not_emptied_of_requests_eq
    (hRequests : q.requests = p.requests) :
    ¬ p.Emptied allocator q := by
  rintro ⟨i, hLe, hGet, _⟩
  rw [hRequests] at hGet
  have hi := (List.getElem?_eq_some_iff.mp hGet).1
  omega

/- One request shrinks a block to nothing or does not. -/
theorem emptied_requested
    {site : AllocationSite} :
    p.Emptied allocator (p.requested site) ↔
      site = .truncate 0 ∧
        allocator p.requests.length = true := by
  constructor
  · rintro ⟨i, hLe, hGet, hGranted⟩
    have hi := (List.getElem?_eq_some_iff.mp hGet).1
    rw [requested_requests, List.length_append,
      List.length_singleton] at hi
    have hLast : i = p.requests.length := by omega
    subst hLast
    simp only [requested_requests,
      List.getElem?_concat_length, Option.some.injEq] at hGet
    exact ⟨hGet, hGranted⟩
  · rintro ⟨rfl, hGranted⟩
    exact ⟨p.requests.length, Nat.le_refl _, by simp, hGranted⟩

/-
  Requests were only added, and a freed buffer was used
  exactly if a request to shrink a block to nothing was
  granted.
-/
structure Tells
    (allocator : Allocator)
    (p q : Process) : Prop where
  longer : List.IsPrefix p.requests q.requests
  stray_iff :
    q.stray = true ↔
      p.stray = true ∨ p.Emptied allocator q

/- Neither a request was made nor a freed buffer used. -/
theorem tells_of_eq
    (hRequests : q.requests = p.requests)
    (hStray : q.stray = p.stray) :
    p.Tells allocator q := by
  constructor
  · exact ⟨[], by rw [List.append_nil, hRequests]⟩
  · rw [hStray]
    simp [not_emptied_of_requests_eq hRequests]

/- A request that does not shrink a block to nothing. -/
theorem tells_requested
    {site : AllocationSite}
    (hSite : site ≠ .truncate 0) :
    p.Tells allocator (p.requested site) := by
  constructor
  · exact List.prefix_append _ _
  · rw [emptied_requested]
    simp [hSite, requested]

instance : IsPreorder Process (Tells allocator) where
  refl _ := tells_of_eq rfl rfl
  trans p q r hFirst hSecond := by
    constructor
    · exact hFirst.longer.trans hSecond.longer
    · rw [hSecond.stray_iff, hFirst.stray_iff,
        emptied_trans hFirst.longer hSecond.longer, or_assoc]

end Process

end KDoth

------------------------------------------------------------
-- Calls That Use What They Freed
------------------------------------------------------------

namespace KDoth

open Command

/- The call uses freed buffers exactly if it frees one. -/
abbrev Tells
    {α : Type}
    (allocator : Allocator)
    (c : Call α)
    (G : α → Prop) : Prop :=
  Evolves (Process.Tells allocator) c G

namespace Tells

variable {α β : Type} {allocator : Allocator}

theorem ofRequest
    {site : AllocationSite}
    (hSite : site ≠ .truncate 0) :
    Tells allocator (request allocator site)
      (fun _ => True) := by
  intro p
  exact ⟨Process.tells_requested hSite, True.intro⟩

theorem ofObjectNew
    {clasz : ObjectClass} :
    Tells allocator (objectNew allocator clasz)
      (fun _ => True) := by
  intro p
  have hRequested :
      p.Tells allocator (p.requested (.objectNew clasz)) :=
    Process.tells_requested (by simp)
  rw [wp_objectNew]
  split
  · refine ⟨IsTrans.trans _ _ _ hRequested ?_, True.intro⟩
    exact Process.tells_of_eq rfl rfl
  · exact ⟨hRequested, True.intro⟩

theorem ofObjectRetain
    {address : Nat} :
    Tells allocator (objectRetain address) (fun _ => True) :=
  Evolves.update fun _ => Process.tells_of_eq rfl rfl

theorem ofObjectRelease
    {address : Nat}
    {deInit : Call Unit}
    (hDeInit : Tells allocator deInit (fun _ => True)) :
    Tells allocator (objectRelease address deInit)
      (fun _ => True) := by
  intro p
  have hCount :
      ∀ n, p.Tells allocator (p.setCount address n) :=
    fun _ => Process.tells_of_eq rfl rfl
  rw [wp_objectRelease]
  split
  · exact Evolves.wp_trans (hCount 0) (hDeInit _)
  · exact ⟨hCount _, True.intro⟩

theorem ofAssert
    {condition : Bool} :
    Tells allocator (kAssert condition) (fun _ => True) := by
  cases condition with
  | true => exact Evolves.ret True.intro
  | false => exact Evolves.stop

end Tells

end KDoth

------------------------------------------------------------
-- Objects Without Buffers That Can Be Freed Early
------------------------------------------------------------

namespace KDoth

open Command

/- Keeping and releasing such an object frees nothing early. -/
class SteadyObject (α : Type) [KObject α] where
  tells_retain :
    ∀ (allocator : Allocator) (x : α),
      Tells allocator (KObject.retain x) (fun _ => True)
  tells_release :
    ∀ (allocator : Allocator) (x : α),
      Tells allocator (KObject.release x) (fun _ => True)

instance : SteadyObject KObjectRef where
  tells_retain _ _ :=
    Evolves.update fun _ => Process.tells_of_eq rfl rfl
  tells_release _ _ :=
    Evolves.update fun _ => Process.tells_of_eq rfl rfl

theorem SteadyObject.tells_releaseOrNull
    {α : Type}
    [KObject α]
    [SteadyObject α]
    (allocator : Allocator)
    (object : Option α) :
    Tells allocator (KObject.releaseOrNull object)
      (fun _ => True) := by
  cases object with
  | none => exact Evolves.ret True.intro
  | some x => exact SteadyObject.tells_release allocator x

end KDoth
