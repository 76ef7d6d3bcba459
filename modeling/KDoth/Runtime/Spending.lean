import KDoth.Runtime.Succeeds

/-
  How many requests for memory a call makes.

  Key definitions include:
    * `Spends`

  Key theorems include:
    * `Spends.bind`
    * `Spends.seq`
    * `Spends.runs`
    * `Spends.succeeds`
-/

------------------------------------------------------------
-- Requests That Are Counted
------------------------------------------------------------

namespace KDoth

open Command

/-
  If the call returns, its value and the number of requests it
  made are in `G`.
-/
def Spends
    {α : Type}
    (c : Call α)
    (G : α → Nat → Prop) : Prop :=
  ∀ p : Process,
    wp c
      (fun a q =>
        ∃ n,
          q.requests.length = p.requests.length + n ∧ G a n)
      (fun _ _ => True) p

namespace Spends

variable {α β : Type} {allocator : Allocator} {A : Prop}

theorem ret
    {a : α}
    {G : α → Nat → Prop}
    (hG : G a 0) :
    Spends (pure a) G := by
  intro p
  exact ⟨0, rfl, hG⟩

/- What both parts spend is spent. -/
theorem bind
    {c : Call β}
    {f : β → Call α}
    {F : β → Nat → Prop}
    {G : α → Nat → Prop}
    (hFirst : Spends c F)
    (hNext :
      ∀ b n, F b n → Spends (f b) (fun a m => G a (n + m))) :
    Spends (c >>= f) G := by
  intro p
  rw [wp_bind]
  apply wp_imp (hFirst p)
  rintro b q ⟨n, hFirstLength, hF⟩
  apply wp_imp (hNext b n hF q)
  rintro a r ⟨m, hLength, hG⟩
  refine ⟨n + m, ?_, hG⟩
  rw [hLength, hFirstLength, Nat.add_assoc]

theorem mono
    {c : Call α}
    {G G' : α → Nat → Prop}
    (hSpends : Spends c G)
    (hG : ∀ a n, G a n → G' a n) :
    Spends c G' := by
  intro p
  apply wp_imp (hSpends p)
  rintro a q ⟨n, hLength, hOld⟩
  exact ⟨n, hLength, hG a n hOld⟩

/- Bounds on what the parts spend add up. -/
theorem seq
    {c : Call β}
    {f : β → Call α}
    {i j k : Nat}
    (hFirst : Spends c (fun _ n => n ≤ i))
    (hNext : ∀ b, Spends (f b) (fun _ n => n ≤ j))
    (hSum : i + j ≤ k) :
    Spends (c >>= f) (fun _ n => n ≤ k) := by
  apply hFirst.bind
  intro b n hn
  apply (hNext b).mono
  intro a m hm
  omega

theorem ofQuiet
    {c : Call α}
    (hQuiet : Quiet c) :
    Spends c (fun _ n => n = 0) := by
  intro p
  apply wp_imp (hQuiet p)
  intro _ q hq
  exact ⟨0, by rw [hq]; rfl, rfl⟩

/- A call that makes no request costs nothing. -/
theorem quiet
    {c : Call α}
    {k : Nat}
    (hQuiet : Quiet c) :
    Spends c (fun _ n => n ≤ k) :=
  (ofQuiet hQuiet).mono (by omega)

/- The rest spends all if the first part makes no request. -/
theorem skip
    {c : Call β}
    {f : β → Call α}
    {G : α → Nat → Prop}
    (hQuiet : Quiet c)
    (hNext : ∀ b, Spends (f b) G) :
    Spends (c >>= f) G := by
  apply (ofQuiet hQuiet).bind
  rintro b _ rfl
  apply (hNext b).mono
  intro a n hG
  rw [Nat.zero_add]
  exact hG

theorem ofRequest
    {site : AllocationSite} :
    Spends (request allocator site) (fun _ n => n ≤ 1) := by
  intro p
  rw [wp_request]
  exact ⟨1, by simp, Nat.le_refl 1⟩

theorem ofObjectNew
    {clasz : ObjectClass} :
    Spends (objectNew allocator clasz) (fun _ n => n ≤ 1) := by
  intro p
  rw [wp_objectNew]
  cases allocator p.requests.length with
  | true => exact ⟨1, by simp, Nat.le_refl 1⟩
  | false => exact ⟨1, by simp, Nat.le_refl 1⟩

/- What is known of the value of a call is known with it. -/
theorem runs
    {c : Call α}
    {G : α → Nat → Prop}
    {R : α → Prop}
    (hGranted : ∀ n, allocator n = true)
    (hRuns : Runs allocator A c R)
    (hSpends : Spends c G) :
    Spends c (fun a n => R a ∧ G a n) := by
  intro p
  have hClean : ¬ p.Refused allocator :=
    Process.not_refused_of_granted hGranted
  apply wp_mono (wp_and (hRuns p hClean) (hSpends p))
  · rintro a q ⟨⟨_, hR⟩, n, hLength, hG⟩
    exact ⟨n, hLength, hR, hG⟩
  · intro _ _ _
    exact True.intro

/- All requests are granted, so the call succeeds. -/
theorem succeeds
    {c : Call α}
    {G : α → Nat → Prop}
    {S : α → Prop}
    (hGranted : ∀ n, allocator n = true)
    (hSucceeds : Succeeds allocator (fun _ => True) c S)
    (hSpends : Spends c G) :
    Spends c (fun a n => S a ∧ G a n) := by
  intro p
  have hClean : ¬ p.Refused allocator :=
    Process.not_refused_of_granted hGranted
  apply wp_mono (wp_and (hSucceeds p hClean) (hSpends p))
  · rintro a q ⟨⟨_, hS⟩, n, hLength, hG⟩
    have hAnswered :
        p.Answered allocator (fun _ => True) q :=
      fun i _ _ _ => ⟨hGranted i, True.intro⟩
    exact ⟨n, hLength, hS hAnswered, hG⟩
  · intro _ _ _
    exact True.intro

end Spends

end KDoth
