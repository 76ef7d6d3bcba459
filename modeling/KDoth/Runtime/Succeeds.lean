import KDoth.Runtime.Refusals

/-
  What calls do when every request they make is granted.

  Only the requests of the call itself count: the allocator
  may have refused earlier ones, and it may refuse later
  ones.

  Key definitions include:
    * `Process.Answered`
    * `Succeeds`
    * `Quiet`
    * `QuietObject`

  Key theorems include:
    * `Succeeds.bind`
    * `Succeeds.ofQuiet`
-/

------------------------------------------------------------
-- Answered Requests
------------------------------------------------------------

namespace KDoth

/-
  The requests made between two processes were granted, and
  were good ones.
-/
def Process.Answered
    (allocator : Allocator)
    (good : AllocationSite → Prop)
    (p q : Process) : Prop :=
  ∀ i site,
    p.requests.length ≤ i → q.requests[i]? = some site →
      allocator i = true ∧ good site

namespace Process

variable {allocator : Allocator}
variable {good : AllocationSite → Prop}
variable {p q r : Process}

/- The first part of the requests. -/
theorem Answered.left
    (hAnswered : p.Answered allocator good r)
    (hPrefix : List.IsPrefix q.requests r.requests) :
    p.Answered allocator good q := by
  intro i site hLe hGet
  have hLt := (List.getElem?_eq_some_iff.mp hGet).1
  rcases hPrefix with ⟨rest, hRequests⟩
  apply hAnswered i site hLe
  rw [← hRequests, List.getElem?_append_left hLt]
  exact hGet

/- The second part of the requests. -/
theorem Answered.right
    (hAnswered : p.Answered allocator good r)
    (hPrefix : List.IsPrefix p.requests q.requests) :
    q.Answered allocator good r := by
  intro i site hLe hGet
  have hLength := hPrefix.length_le
  exact hAnswered i site (by omega) hGet

/- One request that was granted. -/
theorem answered_requested
    {site : AllocationSite}
    (hAnswered : p.Answered allocator good (p.requested site)) :
    allocator p.requests.length = true ∧ good site :=
  hAnswered p.requests.length site (Nat.le_refl _)
    (by simp)

end Process

end KDoth

------------------------------------------------------------
-- Calls Whose Requests Are Granted
------------------------------------------------------------

namespace KDoth

open Command

/-
  Started before any fatal refusal, the call only adds to the
  requests, and its value is in `G` if they are granted and
  good.
-/
def Succeeds
    {α : Type}
    (allocator : Allocator)
    (good : AllocationSite → Prop)
    (c : Call α)
    (G : α → Prop) : Prop :=
  ∀ p : Process,
    ¬ p.Refused allocator →
      wp c
        (fun a q =>
          List.IsPrefix p.requests q.requests ∧
            (p.Answered allocator good q → G a))
        (fun _ _ => True) p

/- The call makes no request. -/
def Quiet
    {α : Type}
    (c : Call α) : Prop :=
  ∀ p : Process,
    wp c (fun _ q => q.requests = p.requests)
      (fun _ _ => True) p

namespace Succeeds

variable {α β : Type}
variable {allocator : Allocator} {A : Prop}
variable {good : AllocationSite → Prop}

theorem ret
    {a : α}
    {G : α → Prop}
    (hG : G a) :
    Succeeds allocator good (pure a) G := by
  intro p _
  exact ⟨List.prefix_refl _, fun _ => hG⟩

/-
  The value of the first call is known from how it runs, and
  known to be in `S` if its requests are granted.
-/
theorem bind
    {c : Call β}
    {f : β → Call α}
    {R S : β → Prop}
    {G : α → Prop}
    (hRuns : Runs allocator A c R)
    (hFirst : Succeeds allocator good c S)
    (hNext :
      ∀ b, R b →
        Succeeds allocator good (f b) (fun a => S b → G a)) :
    Succeeds allocator good (c >>= f) G := by
  intro p hp
  rw [wp_bind]
  apply wp_mono (wp_and (hRuns p hp) (hFirst p hp))
  · intro b q hb
    rcases hb with ⟨⟨hClean, hR⟩, hPrefix, hS⟩
    apply wp_imp (hNext b hR q hClean)
    intro a r ha
    rcases ha with ⟨hLonger, hG⟩
    refine ⟨hPrefix.trans hLonger, ?_⟩
    intro hAnswered
    exact
      hG (hAnswered.right hPrefix)
        (hS (hAnswered.left hLonger))
  · intro _ _ _
    exact True.intro

theorem mono
    {c : Call α}
    {G G' : α → Prop}
    (hSucceeds : Succeeds allocator good c G)
    (hG : ∀ a, G a → G' a) :
    Succeeds allocator good c G' := by
  intro p hp
  apply wp_imp (hSucceeds p hp)
  intro a q ha
  exact ⟨ha.1, fun hAnswered => hG a (ha.2 hAnswered)⟩

theorem ofQuiet
    {c : Call α}
    (hQuiet : Quiet c) :
    Succeeds allocator good c (fun _ => True) := by
  intro p _
  apply wp_imp (hQuiet p)
  intro _ q hq
  rw [hq]
  exact ⟨List.prefix_refl _, fun _ => True.intro⟩

theorem ofRequest
    {site : AllocationSite} :
    Succeeds allocator good (request allocator site)
      (fun granted => granted = true ∧ good site) := by
  intro p _
  rw [wp_request]
  exact
    ⟨List.prefix_append _ _,
      fun hAnswered => Process.answered_requested hAnswered⟩

/- A granted object is not NULL. -/
theorem ofObjectNew
    {clasz : ObjectClass} :
    Succeeds allocator good (objectNew allocator clasz)
      (fun address => address ≠ none) := by
  intro p _
  rw [wp_objectNew]
  cases hGranted : allocator p.requests.length with
  | true =>
      exact ⟨List.prefix_append _ _, fun _ => by simp⟩
  | false =>
      refine ⟨List.prefix_append _ _, ?_⟩
      intro hAnswered
      have hYes := (Process.answered_requested hAnswered).1
      rw [hGranted] at hYes
      cases hYes

/- The rest of a call after it makes an object. -/
theorem bind_objectNew
    {clasz : ObjectClass}
    {f : Option Nat → Call α}
    {G : α → Prop}
    (hNone : Succeeds allocator good (f none) (fun _ => True))
    (hSome :
      ∀ address,
        Succeeds allocator good (f (some address)) G)
    (hSite : (AllocationSite.objectNew clasz).fatal = false) :
    Succeeds allocator good (objectNew allocator clasz >>= f)
      G := by
  apply bind (A := False) (Runs.ofObjectNew hSite) ofObjectNew
  intro address _
  cases address with
  | none => exact hNone.mono fun _ _ hBad => absurd rfl hBad
  | some address =>
      exact (hSome address).mono fun _ hG _ => hG

end Succeeds

end KDoth

------------------------------------------------------------
-- Calls Without Requests
------------------------------------------------------------

namespace KDoth

open Command

namespace Quiet

variable {α β : Type}

theorem ret
    {a : α} :
    Quiet (pure a) := by
  intro p
  exact rfl

theorem stop
    {e : Stop} :
    Quiet (throw e : Call α) := by
  intro p
  exact True.intro

theorem bind
    {c : Call β}
    {f : β → Call α}
    (hFirst : Quiet c)
    (hNext : ∀ b, Quiet (f b)) :
    Quiet (c >>= f) := by
  intro p
  rw [wp_bind]
  apply wp_imp (hFirst p)
  intro b q hq
  rw [← hq]
  exact hNext b q

theorem update
    {f : Process → Process}
    (hRequests : ∀ p, (f p).requests = p.requests) :
    Quiet (modify f) := by
  intro p
  exact hRequests p

theorem ofAssert
    {condition : Bool} :
    Quiet (kAssert condition) := by
  cases condition with
  | true => exact ret
  | false => exact stop

theorem ofObjectRetain
    {address : Nat} :
    Quiet (objectRetain address) :=
  update (fun _ => rfl)

theorem ofObjectRelease
    {address : Nat}
    {deInit : Call Unit}
    (hDeInit : Quiet deInit) :
    Quiet (objectRelease address deInit) := by
  intro p
  rw [wp_objectRelease]
  split
  · exact hDeInit _
  · exact rfl

theorem each
    {f : β → Call PUnit}
    (l : List β)
    (hEach : ∀ b, Quiet (f b)) :
    Quiet (forM l f) := by
  induction l with
  | nil => exact ret
  | cons b l ih =>
      rw [List.forM_cons]
      exact bind (hEach b) (fun _ => ih)

end Quiet

/- Objects that are kept and released without requests. -/
class QuietObject (α : Type) [KObject α] where
  quiet_retain : ∀ x : α, Quiet (KObject.retain x)
  quiet_release : ∀ x : α, Quiet (KObject.release x)

instance : QuietObject KObjectRef where
  quiet_retain _ := Quiet.update (fun _ => rfl)
  quiet_release _ := Quiet.update (fun _ => rfl)

section

variable {α β : Type} [KObject α] [SafeObject α]
variable [QuietObject α]
variable {allocator : Allocator}
variable {good : AllocationSite → Prop}
variable {f : PUnit → Call β} {G : β → Prop}

/- The rest of a call after it retains an object. -/
theorem Succeeds.bind_retain
    (x : α)
    (hRest : Succeeds allocator good (f ⟨⟩) G) :
    Succeeds allocator good (KObject.retain x >>= f) G := by
  apply
    Succeeds.bind (SafeObject.runs_retain allocator False x)
      (Succeeds.ofQuiet (QuietObject.quiet_retain x))
  intro _ _
  exact hRest.mono fun _ hG _ => hG

/- The rest of a call after it releases an object. -/
theorem Succeeds.bind_release
    (x : α)
    (hBuilt : SafeObject.WellBuilt x)
    (hRest : Succeeds allocator good (f ⟨⟩) G) :
    Succeeds allocator good (KObject.release x >>= f) G := by
  apply
    Succeeds.bind
      (SafeObject.runs_release allocator False x hBuilt)
      (Succeeds.ofQuiet (QuietObject.quiet_release x))
  intro _ _
  exact hRest.mono fun _ hG _ => hG

end

theorem Quiet.releaseOrNull
    {α : Type}
    [KObject α]
    [QuietObject α]
    (object : Option α) :
    Quiet (KObject.releaseOrNull object) := by
  cases object with
  | none => exact Quiet.ret
  | some x => exact QuietObject.quiet_release x

end KDoth
