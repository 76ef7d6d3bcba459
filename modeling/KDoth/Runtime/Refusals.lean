import KDoth.Runtime.Process

/-
  How calls behave when the allocator refuses requests.

  Most NULL answers are checked. A refusal at one of the
  fatal sites is dereferenced instead: `KArrayNew` cleans up
  an array without an allocation, `KWorkerPoolPostTask` fills
  in a task that does not exist, and `KStringNewWithData`
  copies into a buffer that does not exist.

  Key definitions include:
    * `AllocationSite.fatal`
    * `Process.Refused`
    * `Runs`
    * `SafeObject`

  Key theorems include:
    * `Runs.bind`
    * `Runs.ofObjectNew`
-/

------------------------------------------------------------
-- Fatal Refusals
------------------------------------------------------------

namespace KDoth

/- Sites whose NULL answer is dereferenced. -/
def AllocationSite.fatal : AllocationSite → Bool
| .objectNew .kAllocation => true
| .objectNew .kWorkerPoolTask => true
| .stringData (_ + 1) => true
| _ => false

/- Some request at a fatal site was refused. -/
def Process.Refused
    (p : Process)
    (allocator : Allocator) : Prop :=
  ∃ i site,
    p.requests[i]? = some site ∧
      allocator i = false ∧ site.fatal = true

/- One more request adds at most one refusal. -/
@[simp] theorem Process.refused_requested
    {p : Process}
    {allocator : Allocator}
    {site : AllocationSite} :
    (p.requested site).Refused allocator ↔
      p.Refused allocator ∨
        allocator p.requests.length = false ∧
          site.fatal = true := by
  unfold Process.Refused
  rw [Process.requested_requests]
  constructor
  · rintro ⟨i, s, hGet, hNo, hFatal⟩
    rw [List.getElem?_append] at hGet
    by_cases hi : i < p.requests.length
    · rw [if_pos hi] at hGet
      exact Or.inl ⟨i, s, hGet, hNo, hFatal⟩
    · rw [if_neg hi] at hGet
      rcases List.getElem?_eq_some_iff.mp hGet with
        ⟨hLt, hEq⟩
      have hIndex : i = p.requests.length := by
        simp only [List.length_singleton] at hLt
        omega
      subst hIndex
      simp only [Nat.sub_self, List.getElem_cons_zero] at hEq
      subst hEq
      exact Or.inr ⟨hNo, hFatal⟩
  · rintro (⟨i, s, hGet, hNo, hFatal⟩ | ⟨hNo, hFatal⟩)
    · have hi := (List.getElem?_eq_some_iff.mp hGet).1
      refine ⟨i, s, ?_, hNo, hFatal⟩
      rw [List.getElem?_append, if_pos hi]
      exact hGet
    · exact
        ⟨p.requests.length, site, by simp, hNo, hFatal⟩

/- Refusals only depend on the requests. -/
theorem Process.refused_congr
    {p q : Process}
    {allocator : Allocator}
    (hRequests : q.requests = p.requests) :
    q.Refused allocator ↔ p.Refused allocator := by
  unfold Process.Refused
  rw [hRequests]

@[simp] theorem Process.refused_created
    {p : Process}
    {allocator : Allocator} :
    p.created.Refused allocator ↔ p.Refused allocator :=
  Process.refused_congr rfl

@[simp] theorem Process.refused_setCount
    {p : Process}
    {allocator : Allocator}
    {a n : Nat} :
    (p.setCount a n).Refused allocator ↔
      p.Refused allocator :=
  Process.refused_congr rfl

/- An allocator without refusals. -/
theorem Process.not_refused_of_granted
    {p : Process}
    {allocator : Allocator}
    (hGranted : ∀ n, allocator n = true) :
    ¬ p.Refused allocator := by
  rintro ⟨i, _, _, hNo, _⟩
  rw [hGranted i] at hNo
  cases hNo

end KDoth

------------------------------------------------------------
-- Runs Without A Stray Dereference
------------------------------------------------------------

namespace KDoth

open Command

variable {α β : Type}
variable {allocator : Allocator} {A : Prop}

/-
  How a call may stop: an assertion fails only if `A`, a NULL
  pointer is dereferenced only after a fatal refusal, and the
  bound on nested rehashes is never used up.
-/
def StopsAt
    (allocator : Allocator)
    (A : Prop) : Stop → Process → Prop
| .assertFailed, p => A ∧ ¬ p.Refused allocator
| .nullDereference, p => p.Refused allocator
| .outOfFuel, _ => False

/- Without refusals and failing assertions nothing stops. -/
theorem StopsAt.not_of_granted
    (hGranted : ∀ n, allocator n = true)
    {e : Stop}
    {p : Process} :
    ¬ StopsAt allocator False e p := by
  intro hStop
  cases e with
  | assertFailed => exact hStop.1
  | nullDereference =>
      exact Process.not_refused_of_granted hGranted hStop
  | outOfFuel => exact hStop

/-
  Started before any fatal refusal, the call returns a value
  in `Q` before any fatal refusal, or stops as above.
-/
def Runs
    (allocator : Allocator)
    (A : Prop)
    (c : Call α)
    (Q : α → Prop) : Prop :=
  ∀ p : Process,
    ¬ p.Refused allocator →
      wp c (fun a p' => ¬ p'.Refused allocator ∧ Q a)
        (StopsAt allocator A) p

namespace Runs

theorem ret
    {a : α}
    {Q : α → Prop}
    (hQ : Q a) :
    Runs allocator A (pure a) Q := by
  intro p hp
  exact ⟨hp, hQ⟩

theorem bind
    {c : Call β}
    {f : β → Call α}
    {R : β → Prop}
    {Q : α → Prop}
    (hFirst : Runs allocator A c R)
    (hNext : ∀ b, R b → Runs allocator A (f b) Q) :
    Runs allocator A (c >>= f) Q := by
  intro p hp
  rw [wp_bind]
  exact
    wp_mono (hFirst p hp)
      (fun b p' hb => hNext b hb.2 p' hb.1)
      (fun _ _ hE => hE)

theorem mono
    {c : Call α}
    {Q Q' : α → Prop}
    (hRuns : Runs allocator A c Q)
    (hQ : ∀ a, Q a → Q' a) :
    Runs allocator A c Q' := by
  intro p hp
  exact
    wp_mono (hRuns p hp)
      (fun a p' ha => ⟨ha.1, hQ a ha.2⟩)
      (fun _ _ hE => hE)

/- Two facts about the value may be read off together. -/
theorem and
    {c : Call α}
    {Q Q' : α → Prop}
    (hLeft : Runs allocator A c Q)
    (hRight : Runs allocator A c Q') :
    Runs allocator A c (fun a => Q a ∧ Q' a) := by
  intro p hp
  exact
    wp_mono (wp_and (hLeft p hp) (hRight p hp))
      (fun a p' ha => ⟨ha.1.1, ha.1.2, ha.2.2⟩)
      (fun _ _ hE => hE.1)

/- A step that makes no request keeps the refusals. -/
theorem update
    {f : Process → Process}
    {Q : PUnit → Prop}
    (hRequests : ∀ p, (f p).requests = p.requests)
    (hQ : Q ⟨⟩) :
    Runs allocator A (modify f) Q := by
  intro p hp
  rw [wp_modify, Process.refused_congr (hRequests p)]
  exact ⟨hp, hQ⟩

/- A refused request at a site that is not fatal is known. -/
theorem ofRequest
    {site : AllocationSite}
    (hSite : site.fatal = false) :
    Runs allocator A (request allocator site)
      (fun granted =>
        granted = false → ∃ n, allocator n = false) := by
  intro p hp
  rw [wp_request]
  constructor
  · simp [hp, hSite]
  · intro hNo
    exact ⟨_, hNo⟩

theorem ofObjectNew
    {clasz : ObjectClass}
    (hSite : (AllocationSite.objectNew clasz).fatal = false) :
    Runs allocator A (objectNew allocator clasz)
      (fun address =>
        address = none → ∃ n, allocator n = false) := by
  intro p hp
  rw [wp_objectNew]
  cases hGranted : allocator p.requests.length with
  | true => simp [hp, hSite]
  | false => simpa [hp, hSite] using ⟨_, hGranted⟩

theorem ofObjectRetain
    {address : Nat} :
    Runs allocator A (objectRetain address)
      (fun _ => True) :=
  update (fun _ => rfl) trivial

/- A release runs the deinitializer or does nothing. -/
theorem ofObjectRelease
    {address : Nat}
    {deInit : Call Unit}
    (hDeInit : Runs allocator A deInit (fun _ => True)) :
    Runs allocator A (objectRelease address deInit)
      (fun _ => True) := by
  intro p hp
  rw [wp_objectRelease]
  by_cases hLast : p.refCount address = 1
  · rw [if_pos hLast]
    exact hDeInit _ (Process.refused_setCount.not.mpr hp)
  · rw [if_neg hLast]
    exact ⟨Process.refused_setCount.not.mpr hp, trivial⟩

theorem ofAssert
    {condition : Bool}
    (hFail : condition = false → A) :
    Runs allocator A (kAssert condition)
      (fun _ => condition = true) := by
  cases condition with
  | true => exact ret rfl
  | false =>
      intro p hp
      exact ⟨hFail rfl, hp⟩

theorem each
    {f : β → Call PUnit}
    (l : List β)
    (hEach :
      ∀ b ∈ l, Runs allocator A (f b) (fun _ => True)) :
    Runs allocator A (forM l f) (fun _ => True) := by
  induction l with
  | nil => exact ret trivial
  | cons b l ih =>
      rw [List.forM_cons]
      refine bind (hEach b List.mem_cons_self) ?_
      intro _ _
      exact
        ih (fun b' hb' => hEach b' (List.mem_cons_of_mem _ hb'))

end Runs

end KDoth

------------------------------------------------------------
-- Objects That Can Always Be Released
------------------------------------------------------------

namespace KDoth

/-
  Objects that are released without dereferencing NULL once
  they are well built.
-/
class SafeObject (α : Type) [KObject α] where
  WellBuilt : α → Prop
  runs_retain :
    ∀ (allocator : Allocator) (A : Prop) (x : α),
      Runs allocator A (KObject.retain x) (fun _ => True)
  runs_release :
    ∀ (allocator : Allocator) (A : Prop) (x : α),
      WellBuilt x →
        Runs allocator A (KObject.release x) (fun _ => True)

instance : SafeObject KObjectRef where
  WellBuilt _ := True
  runs_retain _ _ _ := Runs.update (fun _ => rfl) trivial
  runs_release _ _ _ _ := Runs.update (fun _ => rfl) trivial

namespace Runs

variable {α β : Type} [KObject α] [SafeObject α]
variable {allocator : Allocator} {A : Prop}
variable {f : PUnit → Call β} {Q : β → Prop}

/- The rest of a call after it retains an object. -/
theorem bind_retain
    (x : α)
    (hRest : Runs allocator A (f ⟨⟩) Q) :
    Runs allocator A (KObject.retain x >>= f) Q := by
  apply Runs.bind (SafeObject.runs_retain allocator A x)
  intro _ _
  exact hRest

/- The rest of a call after it releases an object. -/
theorem bind_release
    (x : α)
    (hBuilt : SafeObject.WellBuilt x)
    (hRest : Runs allocator A (f ⟨⟩) Q) :
    Runs allocator A (KObject.release x >>= f) Q := by
  apply
    Runs.bind (SafeObject.runs_release allocator A x hBuilt)
  intro _ _
  exact hRest

end Runs

end KDoth
