import KDoth.Objects.Release

/-
  Heaps whose reference counts add up, and the steps that
  keep them so.

  Key definitions include:
    * `Heap.Accounts`

  Key theorems include:
    * `Heap.Accounts.written`
    * `Heap.Accounts.wp_objectRetain`
    * `Heap.Accounts.wp_objectRelease`
    * `Heap.Accounts.wp_releaseItems`
    * `Heap.Accounts.setOut`
    * `Heap.Accounts.pin`
    * `Heap.Accounts.wp_setBody`
    * `Heap.Accounts.create`
    * `Heap.Accounts.wp_objectNew`
-/

------------------------------------------------------------
-- Accounts
------------------------------------------------------------

namespace KDoth

namespace Heap

/-
  The live objects are the nodes of the graph, their counts
  are balanced, and the objects that are not live any more
  are those that were deinitialized, once each. The
  autorelease pool is an array of the base.
-/
structure Accounts
    (pinned : KObjectRef → Prop)
    (base : KObjectRef → Nat)
    (h : Heap)
    (g : RefGraph KObjectRef)
    (pending : List KObjectRef) : Prop
    extends Cascade pinned base h g pending where
  live : ∀ o, o ∈ g.nodes ↔ (h.objects o).isSome = true
  bounded : ∀ o ∈ g.nodes, o.address < h.nextAddress
  nodup : h.deInits.Nodup
  dead :
    ∀ o,
      o ∈ h.deInits ↔
        o.address < h.nextAddress ∧ h.objects o = none
  pool :
    ∀ p, h.tPool = some p →
      0 < base p ∧ ∃ items, h.body? p = some (.array items)

namespace Accounts

variable {pinned : KObjectRef → Prop}
variable {base : KObjectRef → Nat}
variable {h : Heap} {g : RefGraph KObjectRef}
variable {pending : List KObjectRef}

/- References move between the base and the pending ones. -/
theorem shift
    {base' : KObjectRef → Nat}
    {pending' : List KObjectRef}
    (hAcc : Accounts pinned base h g pending)
    (hSame :
      ∀ o,
        base' o + pending'.count o = base o + pending.count o)
    (hRoots : ∀ o, pinned o → g.Rooted base' o)
    (hPool : ∀ p, h.tPool = some p → 0 < base' p) :
    Accounts pinned base' h g pending' := by
  constructor
  · constructor
    · exact hAcc.models
    · exact hAcc.balanced.shift hSame
    · exact hRoots
  · exact hAcc.live
  · exact hAcc.bounded
  · exact hAcc.nodup
  · exact hAcc.dead
  · intro p hp
    exact ⟨hPool p hp, (hAcc.pool p hp).2⟩

/- There are no more nodes than addresses. -/
theorem card_le
    (hAcc : Accounts pinned base h g pending) :
    g.nodes.card ≤ h.nextAddress := by
  have hMaps :
      ∀ o ∈ g.nodes,
        o.address ∈ Finset.range h.nextAddress := by
    intro o ho
    exact Finset.mem_range.mpr (hAcc.bounded o ho)
  have hInjective :
      Set.InjOn KObjectRef.address
        (g.nodes : Set KObjectRef) := by
    intro a _ b _ hEq
    cases a
    cases b
    cases hEq
    rfl
  have hCard :=
    Finset.card_le_card_of_injOn KObjectRef.address hMaps
      hInjective
  rw [Finset.card_range] at hCard
  exact hCard

/- A cascade keeps the accounts. -/
theorem shrink
    {h' : Heap}
    {g' : RefGraph KObjectRef}
    {pending' : List KObjectRef}
    (hAcc : Accounts pinned base h g pending)
    (hShrunk : Shrunk h g h' g')
    (hCascade : Cascade pinned base h' g' pending') :
    Accounts pinned base h' g' pending' := by
  have hLive :
      ∀ o, o ∈ g'.nodes ↔ (h'.objects o).isSome = true := by
    intro o
    constructor
    · intro ho
      rcases hCascade.models.read ho with ⟨block, hBlock, _⟩
      rw [hBlock]
      rfl
    · intro hSome
      by_contra hNot
      by_cases hNode : o ∈ g.nodes
      · rw [hShrunk.freed o hNode hNot] at hSome
        cases hSome
      · rw [hShrunk.frame o hNode] at hSome
        exact hNode ((hAcc.live o).mpr hSome)
  rcases hShrunk.deInits with ⟨more, hLog, hNodup, hMore⟩
  constructor
  · exact hCascade
  · exact hLive
  · intro o ho
    rw [hShrunk.nextAddress]
    exact hAcc.bounded o (hShrunk.nodes ho)
  · rw [hLog]
    apply List.nodup_append.mpr
    refine ⟨hAcc.nodup, hNodup, ?_⟩
    intro a ha b hb hEq
    subst hEq
    have hNone := ((hAcc.dead a).mp ha).2
    have hSome := (hAcc.live a).mp ((hMore a).mp hb).1
    rw [hNone] at hSome
    cases hSome
  · intro o
    rw [hLog, List.mem_append, hAcc.dead, hMore,
      hShrunk.nextAddress]
    have hNone : h'.objects o = none ↔ o ∉ g'.nodes := by
      rw [hLive o]
      cases h'.objects o <;> simp
    have hNoneBefore : h.objects o = none ↔ o ∉ g.nodes := by
      rw [hAcc.live o]
      cases h.objects o <;> simp
    rw [hNone, hNoneBefore]
    constructor
    · intro hEither
      rcases hEither with hLeft | hRight
      · exact ⟨hLeft.1, fun hx => hLeft.2 (hShrunk.nodes hx)⟩
      · exact ⟨hAcc.bounded o hRight.1, hRight.2⟩
    · intro hBoth
      by_cases hNode : o ∈ g.nodes
      · exact Or.inr ⟨hNode, hBoth.2⟩
      · exact Or.inl ⟨hBoth.1, hNode⟩
  · intro p hp
    rw [hShrunk.tPool] at hp
    rcases hAcc.pool p hp with ⟨hBase, items, hItems⟩
    have hNode : p ∈ g'.nodes :=
      hCascade.balanced.mem_of_rooted (.root hBase)
    exact ⟨hBase, items, by rw [hShrunk.body p hNode, hItems]⟩

end Accounts

end Heap

end KDoth

------------------------------------------------------------
-- Retaining And Releasing
------------------------------------------------------------

namespace KDoth

namespace Heap

namespace Accounts

open Command

variable {pinned : KObjectRef → Prop}
variable {base : KObjectRef → Nat}
variable {h : Heap} {g : RefGraph KObjectRef}
variable {pending : List KObjectRef}

/- The block of a live object is written. -/
theorem written
    {pinned' : KObjectRef → Prop}
    {pending' : List KObjectRef}
    (hAcc : Accounts pinned base h g pending)
    {o : KObjectRef}
    {block block' : KControlBlock}
    (hBlock : h.objects o = some block)
    (hCascade :
      Cascade pinned' base (h.put o (some block')) g pending')
    (hPool :
      h.tPool = some o →
        ∃ items, block'.body = .array items) :
    Accounts pinned' base (h.put o (some block')) g
      pending' := by
  have hSome :
      ∀ x,
        ((h.put o (some block')).objects x).isSome =
          (h.objects x).isSome := by
    intro x
    by_cases hSame : x = o
    · rw [hSame, put_objects_self, hBlock]
      rfl
    · rw [put_objects_of_ne _ hSame]
  constructor
  · exact hCascade
  · intro x
    rw [hSome x]
    exact hAcc.live x
  · exact hAcc.bounded
  · exact hAcc.nodup
  · intro x
    have hBefore : x ∈ h.deInits ↔ _ := hAcc.dead x
    rw [← Option.isNone_iff_eq_none, ← Option.not_isSome]
      at hBefore ⊢
    rw [hSome x]
    exact hBefore
  · intro p hp
    rcases hAcc.pool p hp with ⟨hBase, items, hItems⟩
    refine ⟨hBase, ?_⟩
    by_cases hSame : p = o
    · rw [hSame] at hp
      rcases hPool hp with ⟨items', hBody⟩
      exact ⟨items', by simp [hSame, body?, hBody]⟩
    · refine ⟨items, ?_⟩
      rw [put_body?_of_ne _ hSame]
      exact hItems

/- A retained object has one more pending reference. -/
theorem wp_objectRetain
    (hAcc : Accounts pinned base h g pending)
    {o : KObjectRef}
    (hNode : o ∈ g.nodes)
    (hRoom : h.count o + 1 < 2 ^ 32) :
    wp (objectRetain (some o))
      (fun _ h' =>
        Accounts pinned base h' g (o :: pending) ∧
          (∀ x, h'.body? x = h.body? x) ∧
            h'.tPool = h.tPool)
      (fun _ _ => False) h := by
  rcases hAcc.models.read hNode with ⟨block, hBlock, _⟩
  have hCount : h.count o = block.refCount.toNat := by
    simp [count, hBlock]
  simp only [objectRetain, read, wp_bind, wp_get, hBlock,
    wp_pure, wp_modify]
  have hBodies := put_count_body? hBlock (block.refCount + 1)
  have hNext :
      (block.refCount + 1).toNat = h.count o + 1 := by
    rw [UInt32.toNat_add, ← hCount]
    exact Nat.mod_eq_of_lt hRoom
  refine ⟨hAcc.written hBlock ?_ ?_, hBodies, rfl⟩
  · constructor
    · intro x hx
      rw [hBodies x]
      exact hAcc.models x hx
    · rw [put_count_count, hNext]
      exact hAcc.balanced.retain hNode
    · exact hAcc.rooted
  · intro hp
    rcases (hAcc.pool o hp).2 with ⟨items, hItems⟩
    rw [body?, hBlock] at hItems
    exact ⟨items, Option.some.inj hItems⟩

/- Releasing a pending reference. -/
theorem wp_objectRelease
    {o : KObjectRef}
    (hAcc : Accounts pinned base h g (o :: pending)) :
    wp (objectRelease (some o))
      (fun _ h' =>
        ∃ g',
          Shrunk h g h' g' ∧
            Accounts pinned base h' g' pending)
      (fun _ _ => False) h := by
  simp only [objectRelease, wp_bind, wp_get]
  have hReleases :=
    releases h.nextAddress pinned base h g o pending
      hAcc.toCascade hAcc.card_le
  apply wp_imp hReleases
  intro _ h' hAfter
  rcases hAfter with ⟨g', hShrunk, hCascade⟩
  exact ⟨g', hShrunk, hAcc.shrink hShrunk hCascade⟩

/- Releasing a sequence of pending references. -/
theorem wp_releaseItems
    (l : List KObjectRef)
    (hAcc : Accounts pinned base h g (l ++ pending)) :
    wp (forM l (fun item => objectRelease (some item)))
      (fun _ h' =>
        ∃ g',
          Shrunk h g h' g' ∧
            Accounts pinned base h' g' pending)
      (fun _ _ => False) h := by
  induction l generalizing h g with
  | nil => exact ⟨g, Shrunk.refl h g, hAcc⟩
  | cons o l ih =>
      rw [List.forM_cons, wp_bind]
      apply wp_imp (wp_objectRelease hAcc)
      intro _ h' hAfter
      rcases hAfter with ⟨g', hShrunk, hNext⟩
      apply wp_imp (ih hNext)
      intro _ h'' hLast
      rcases hLast with ⟨g'', hShrunk', hDone⟩
      exact ⟨g'', hShrunk.trans hShrunk', hDone⟩

end Accounts

end Heap

end KDoth

------------------------------------------------------------
-- Changing Containers
------------------------------------------------------------

namespace KDoth

namespace Heap

open Command

variable {h : Heap} {o : KObjectRef}

theorem wp_arrayItems
    {items : List KObjectRef}
    (hBody : h.body? o = some (.array items))
    {Q : List KObjectRef → Heap → Prop}
    {E : HeapStop → Heap → Prop} :
    wp (arrayItems o) Q E h ↔ Q items h := by
  rcases Option.map_eq_some_iff.mp hBody with
    ⟨block, hBlock, hEq⟩
  simp only [arrayItems, read, wp_bind, wp_get, hBlock,
    wp_pure, hEq]

theorem wp_listItems
    {items : List KObjectRef}
    (hBody : h.body? o = some (.list items))
    {Q : List KObjectRef → Heap → Prop}
    {E : HeapStop → Heap → Prop} :
    wp (listItems o) Q E h ↔ Q items h := by
  rcases Option.map_eq_some_iff.mp hBody with
    ⟨block, hBlock, hEq⟩
  simp only [listItems, read, wp_bind, wp_get, hBlock,
    wp_pure, hEq]

theorem arrayItems_apply
    {items : List KObjectRef}
    (hBody : h.body? o = some (.array items)) :
    arrayItems o h = .ok items h := by
  have hWp :
      wp (arrayItems o) (fun l h' => l = items ∧ h' = h)
        (fun _ _ => False) h :=
    (wp_arrayItems hBody).mpr ⟨rfl, rfl⟩
  rcases returns_iff_wp.mpr hWp with ⟨l, h', hRun, rfl, rfl⟩
  exact hRun

theorem listItems_apply
    {items : List KObjectRef}
    (hBody : h.body? o = some (.list items)) :
    listItems o h = .ok items h := by
  have hWp :
      wp (listItems o) (fun l h' => l = items ∧ h' = h)
        (fun _ _ => False) h :=
    (wp_listItems hBody).mpr ⟨rfl, rfl⟩
  rcases returns_iff_wp.mpr hWp with ⟨l, h', hRun, rfl, rfl⟩
  exact hRun

theorem read_apply
    {block : KControlBlock}
    (hBlock : h.objects o = some block) :
    read o h = .ok block h := by
  have hGet : (get : HeapCall Heap) h = .ok h h := rfl
  unfold read
  rw [bind_of_ok hGet, hBlock]
  rfl

namespace Accounts

variable {base : KObjectRef → Nat}
variable {g : RefGraph KObjectRef}
variable {pending : List KObjectRef}

/-
  Let an object take over pending references, or give up
  some of its own, before its body is written. No other
  object may be pinned.
-/
theorem setOut
    {pinned : KObjectRef → Prop}
    (hAcc : Accounts pinned base h g pending)
    {a : KObjectRef}
    (hPinned : ∀ x, pinned x → x = a)
    (hRooted : g.Rooted base a)
    (l pending' : List KObjectRef)
    (hSame :
      ∀ x,
        l.count x + pending'.count x =
          (g.out a).count x + pending.count x) :
    Accounts (fun x => x = a) base h (g.setOut a l)
      pending' := by
  have hNode := hAcc.balanced.mem_of_rooted hRooted
  constructor
  · constructor
    · intro x hx
      rcases hAcc.models x hx with ⟨body, hBody, hOut⟩
      refine ⟨body, hBody, ?_⟩
      intro hNe
      have hOther : (g.setOut a l).out x = g.out x := by
        simp [RefGraph.setOut, hNe]
      rw [hOther]
      exact hOut fun h => hNe (hPinned x h)
    · exact hAcc.balanced.setOut hNode hSame
    · intro x hx
      rw [hx]
      exact hRooted.setOut l
  · exact hAcc.live
  · exact hAcc.bounded
  · exact hAcc.nodup
  · exact hAcc.dead
  · exact hAcc.pool

/- The same with nothing pinned before. -/
theorem pin
    (hAcc : Accounts (fun _ => False) base h g pending)
    {a : KObjectRef}
    (hRooted : g.Rooted base a)
    (l pending' : List KObjectRef)
    (hSame :
      ∀ x,
        l.count x + pending'.count x =
          (g.out a).count x + pending.count x) :
    Accounts (fun x => x = a) base h (g.setOut a l)
      pending' :=
  hAcc.setOut (fun _ hx => hx.elim) hRooted l pending' hSame

/- Write the body that the graph already has. -/
theorem wp_setBody
    {a : KObjectRef}
    (hAcc : Accounts (fun x => x = a) base h g pending)
    (body : KObjectBody)
    (hOut : g.out a = body.references)
    (hPool :
      h.tPool = some a → ∃ items, body = .array items) :
    wp (setBody a body)
      (fun _ h' =>
        Accounts (fun _ => False) base h' g pending ∧
          h'.tPool = h.tPool)
      (fun _ _ => False) h := by
  have hNode :=
    hAcc.balanced.mem_of_rooted (hAcc.rooted a rfl)
  rcases hAcc.models.read hNode with ⟨block, hBlock, _⟩
  simp only [setBody, read, wp_bind, wp_get, hBlock, wp_pure,
    wp_modify]
  refine ⟨hAcc.written hBlock ?_ hPool, rfl⟩
  constructor
  · intro x hx
    by_cases hSame : x = a
    · refine ⟨body, ?_, ?_⟩
      · simp [hSame, body?]
      · intro _
        rw [hSame]
        exact hOut
    · rcases hAcc.models x hx with ⟨old, hOld, hRefs⟩
      refine ⟨old, ?_, fun _ => hRefs hSame⟩
      rw [put_body?_of_ne _ hSame]
      exact hOld
  · apply hAcc.balanced.congr
    intro x hx
    by_cases hSame : x = a
    · simp [hSame, count, hBlock]
    · simp only [count, put_objects_of_ne _ hSame]
  · intro x hx
    exact hx.elim

theorem created_objects_self
    (h : Heap)
    (body : KObjectBody) :
    (h.created body).objects ⟨h.nextAddress⟩ =
      some { refCount := 1, body := body } := by
  simp [created]

theorem created_objects_of_ne
    (body : KObjectBody)
    {x : KObjectRef}
    (hNe : x ≠ ⟨h.nextAddress⟩) :
    (h.created body).objects x = h.objects x := by
  simp [created, hNe]

/- The next address is not that of a node. -/
theorem fresh
    (hAcc : Accounts (fun _ => False) base h g pending) :
    (⟨h.nextAddress⟩ : KObjectRef) ∉ g.nodes := by
  intro hMem
  exact Nat.lt_irrefl _ (hAcc.bounded _ hMem)

theorem ne_fresh
    (hAcc : Accounts (fun _ => False) base h g pending)
    {x : KObjectRef}
    (hNode : x ∈ g.nodes) :
    x ≠ ⟨h.nextAddress⟩ := by
  intro hEq
  rw [hEq] at hNode
  exact hAcc.fresh hNode

/- The new object takes over what it refers to. -/
theorem cascade_created
    (body : KObjectBody)
    (pending : List KObjectRef)
    (hAcc :
      Accounts (fun _ => False) base h g
        (body.references ++ pending)) :
    Cascade (fun _ => False) base (h.created body)
      (g.insert ⟨h.nextAddress⟩ body.references)
      (⟨h.nextAddress⟩ :: pending) := by
  constructor
  · intro x hx
    by_cases hSame : x = ⟨h.nextAddress⟩
    · refine ⟨body, ?_, ?_⟩
      · rw [hSame, body?, created_objects_self]
        rfl
      · intro _
        simp [hSame, RefGraph.insert]
    · have hMem : x ∈ g.nodes :=
        (Finset.mem_insert.mp hx).resolve_left hSame
      rcases hAcc.models x hMem with ⟨old, hBody, hOut⟩
      refine ⟨old, ?_, ?_⟩
      · rw [body?, created_objects_of_ne body hSame]
        exact hBody
      · intro _
        have hKeep :
            (g.insert ⟨h.nextAddress⟩ body.references).out x =
              g.out x := by
          simp [RefGraph.insert, hSame]
        rw [hKeep]
        exact hOut id
  · apply (hAcc.balanced.insert hAcc.fresh).congr
    intro x hx
    by_cases hSame : x = ⟨h.nextAddress⟩
    · rw [hSame, Function.update_self, count,
        created_objects_self]
      rfl
    · rw [Function.update_of_ne hSame]
      simp only [count, created_objects_of_ne body hSame]
  · intro x hx
    exact hx.elim

/- The accounts with the new object. -/
theorem create
    (body : KObjectBody)
    (pending : List KObjectRef)
    (hAcc :
      Accounts (fun _ => False) base h g
        (body.references ++ pending)) :
    Accounts (fun _ => False) base (h.created body)
      (g.insert ⟨h.nextAddress⟩ body.references)
      (⟨h.nextAddress⟩ :: pending) := by
  constructor
  · exact cascade_created body pending hAcc
  · intro x
    by_cases hSame : x = ⟨h.nextAddress⟩
    · rw [hSame, created_objects_self]
      simp [RefGraph.insert]
    · rw [created_objects_of_ne body hSame, ← hAcc.live x]
      simp [RefGraph.insert, hSame]
  · intro x hx
    change x.address < h.nextAddress + 1
    rcases Finset.mem_insert.mp hx with hEq | hMem
    · rw [hEq]
      exact Nat.lt_succ_self _
    · exact Nat.lt_succ_of_lt (hAcc.bounded x hMem)
  · exact hAcc.nodup
  · intro x
    change
      x ∈ h.deInits ↔
        x.address < h.nextAddress + 1 ∧
          (h.created body).objects x = none
    rw [hAcc.dead x]
    by_cases hSame : x = ⟨h.nextAddress⟩
    · rw [hSame, created_objects_self]
      simp
    · have hNe : x.address ≠ h.nextAddress := by
        intro hEq
        apply hSame
        cases x
        exact congrArg KObjectRef.mk hEq
      rw [created_objects_of_ne body hSame]
      constructor
      · intro hBoth
        exact ⟨Nat.lt_succ_of_lt hBoth.1, hBoth.2⟩
      · intro hBoth
        exact ⟨by omega, hBoth.2⟩
  · intro p hp
    rcases hAcc.pool p hp with ⟨hBase, items, hItems⟩
    refine ⟨hBase, items, ?_⟩
    have hMem : p ∈ g.nodes :=
      hAcc.balanced.mem_of_rooted (.root hBase)
    rw [body?, created_objects_of_ne body (hAcc.ne_fresh hMem)]
    exact hItems

/- A new object has one pending reference. -/
theorem wp_objectNew
    (body : KObjectBody)
    (pending : List KObjectRef)
    (hAcc :
      Accounts (fun _ => False) base h g
        (body.references ++ pending))
    (granted : Bool) :
    wp (objectNew body granted)
      (fun r h' =>
        (r = none → h' = h) ∧
          ∀ o, r = some o →
            granted = true ∧
            h'.body? o = some body ∧ h'.tPool = h.tPool ∧
              (∀ x ∈ g.nodes, h'.objects x = h.objects x) ∧
                Accounts (fun _ => False) base h'
                  (g.insert o body.references) (o :: pending))
      (fun _ _ => False) h := by
  cases granted with
  | false => exact ⟨fun _ => rfl, by simp⟩
  | true =>
      refine ⟨by simp, ?_⟩
      intro o hEq
      cases hEq
      refine
        ⟨rfl, ?_, rfl, ?_, create body pending hAcc⟩
      · rw [body?, created_objects_self]
        rfl
      · intro x hx
        exact created_objects_of_ne body (hAcc.ne_fresh hx)

end Accounts

end Heap

end KDoth
