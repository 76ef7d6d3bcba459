import KDoth.Objects.Accounts

/-
  Calls on arrays, lists and the autorelease pool keep the
  accounts.

  Key definitions include:
    * `Heap.Accounts.Settled`
    * `Heap.rootsOf`
    * `Heap.Accounted`

  Key theorems include:
    * `Heap.Accounts.wp_append`
    * `Heap.Accounts.wp_detach`
    * `Heap.Accounts.wp_arrayRemoveObjectAtIndex`
    * `Heap.Accounts.wp_arrayRemoveAllObjects`
    * `Heap.Accounts.wp_listRemoveObjectAtIndex`
    * `Heap.Accounts.wp_listRemoveAllObjects`
    * `Heap.Accounts.wp_autoreleasePoolAddObject`
-/

------------------------------------------------------------
-- Calls On Containers
------------------------------------------------------------

namespace KDoth

namespace Heap

/- An item and the list without it make up the list. -/
theorem count_eraseIdx_add
    {items : List KObjectRef}
    {index : Nat}
    {item : KObjectRef}
    (hItem : items[index]? = some item)
    (x : KObjectRef) :
    (items.eraseIdx index).count x + [item].count x =
      items.count x := by
  rcases List.getElem?_eq_some_iff.mp hItem with
    ⟨hLt, hGet⟩
  have hCount :=
    (List.getElem_cons_eraseIdx_perm hLt).count_eq x
  rw [hGet, List.count_cons] at hCount
  rw [List.count_singleton]
  exact hCount

namespace Accounts

open Command

variable {base : KObjectRef → Nat}
variable {h : Heap} {g : RefGraph KObjectRef}
variable {a o : KObjectRef}

/- Accounts of some graph, with the pool of the thread. -/
def Settled
    (base : KObjectRef → Nat)
    (tPool : Option KObjectRef)
    (pending : List KObjectRef)
    (h : Heap) : Prop :=
  (∃ g, Accounts (fun _ => False) base h g pending) ∧
    h.tPool = tPool

/- The items of a container are written as the graph says. -/
theorem wp_settle
    {tPool : Option KObjectRef}
    {pending : List KObjectRef}
    (hAcc : Accounts (fun x => x = a) base h g pending)
    (hSame : h.tPool = tPool)
    (body : KObjectBody)
    (hOut : g.out a = body.references)
    (hPool :
      tPool = some a → ∃ items, body = .array items) :
    wp (setBody a body)
      (fun _ h' => Settled base tPool pending h')
      (fun _ _ => False) h := by
  apply wp_imp (hAcc.wp_setBody body hOut (by rwa [hSame]))
  intro _ h' hLast
  exact ⟨⟨g, hLast.1⟩, hLast.2.trans hSame⟩

/- A container takes over a new reference to an object. -/
theorem wp_append
    (hAcc : Accounts (fun _ => False) base h g [])
    (hRooted : g.Rooted base a)
    (hNode : o ∈ g.nodes)
    (hRoom : h.count o + 1 < 2 ^ 32)
    (body : KObjectBody)
    (hOut : body.references = g.out a ++ [o])
    (hPool :
      h.tPool = some a → ∃ items, body = .array items) :
    wp
      (do
        objectRetain (some o)
        setBody a body)
      (fun _ h' => Settled base h.tPool [] h')
      (fun _ _ => False) h := by
  rw [wp_bind]
  apply wp_imp (hAcc.wp_objectRetain hNode hRoom)
  intro _ h' hAfter
  rcases hAfter with ⟨hRetained, _, hSamePool⟩
  have hPinned :=
    hRetained.pin hRooted body.references []
      (by
        intro x
        rw [hOut, List.count_append, List.count_nil]
        omega)
  have hBody : (g.setOut a body.references).out a =
      body.references := by
    simp [RefGraph.setOut]
  exact hPinned.wp_settle hSamePool body hBody hPool

/-
  References that a container is about to give up are
  released while they are still in it.
-/
theorem wp_detach
    (hAcc : Accounts (fun _ => False) base h g [])
    (hRooted : g.Rooted base a)
    (kept removed : List KObjectRef)
    (hSplit :
      ∀ x, kept.count x + removed.count x = (g.out a).count x)
    {release : HeapCall Unit}
    (hRelease :
      ∀ h g,
        Accounts (fun x => x = a) base h g (removed ++ []) →
          wp release
            (fun _ h' =>
              ∃ g',
                Shrunk h g h' g' ∧
                  Accounts (fun x => x = a) base h' g' [])
            (fun _ _ => False) h) :
    wp release
      (fun _ h' =>
        h'.tPool = h.tPool ∧ h'.body? a = h.body? a ∧
          ∃ g',
            Accounts (fun x => x = a) base h' g' [] ∧
              g'.out a = kept)
      (fun _ _ => False) h := by
  have hPinned :=
    hAcc.pin hRooted kept (removed ++ [])
      (by
        intro x
        rw [List.append_nil, List.count_nil]
        exact hSplit x)
  apply wp_imp (hRelease h _ hPinned)
  intro _ h' hAfter
  rcases hAfter with ⟨g', hShrunk, hDone⟩
  have hNode : a ∈ g'.nodes :=
    hDone.balanced.mem_of_rooted (hDone.rooted a rfl)
  refine
    ⟨hShrunk.tPool, hShrunk.body a hNode, g', hDone, ?_⟩
  rw [hShrunk.out]
  simp [RefGraph.setOut]

/- The pool of the thread keeps its objects in an array. -/
theorem not_pool_of_list
    {pending : List KObjectRef}
    {items : List KObjectRef}
    (hAcc : Accounts (fun _ => False) base h g pending)
    (hBody : h.body? a = some (.list items)) :
    h.tPool ≠ some a := by
  intro hPool
  rcases (hAcc.pool a hPool).2 with ⟨items', hArray⟩
  rw [hBody] at hArray
  cases hArray

/- The object is a node with its elements. -/
theorem out_array
    (hAcc : Accounts (fun _ => False) base h g [])
    (hNode : a ∈ g.nodes)
    {body : KObjectBody}
    (hBody : h.body? a = some body) :
    g.out a = body.references := by
  rcases hAcc.models a hNode with ⟨other, hOther, hOut⟩
  rw [hBody] at hOther
  cases hOther
  exact hOut id

theorem wp_arrayAddObject
    (hAcc : Accounts (fun _ => False) base h g [])
    (hRooted : g.Rooted base a)
    {items : List KObjectRef}
    (hBody : h.body? a = some (.array items))
    (hNode : o ∈ g.nodes)
    (hRoom : h.count o + 1 < 2 ^ 32)
    (granted : Bool) :
    wp (arrayAddObject (some a) (some o) granted)
      (fun _ h' => Settled base h.tPool [] h')
      (fun _ _ => False) h := by
  have hMem := hAcc.balanced.mem_of_rooted hRooted
  have hOut := out_array hAcc hMem hBody
  simp only [arrayAddObject, wp_bind, wp_arrayItems hBody]
  cases granted with
  | false => exact ⟨⟨g, hAcc⟩, rfl⟩
  | true =>
      have hAppend :=
        hAcc.wp_append hRooted hNode hRoom
          (.array (items ++ [o]))
          (by rw [hOut]; rfl) (fun _ => ⟨_, rfl⟩)
      rw [wp_bind] at hAppend
      simp only [if_true, wp_bind, wp_pure]
      exact hAppend

theorem wp_listAddObject
    (hAcc : Accounts (fun _ => False) base h g [])
    (hRooted : g.Rooted base a)
    {items : List KObjectRef}
    (hBody : h.body? a = some (.list items))
    (hNode : o ∈ g.nodes)
    (hRoom : h.count o + 1 < 2 ^ 32)
    (granted : Bool) :
    wp (listAddObject (some a) (some o) granted)
      (fun _ h' => Settled base h.tPool [] h')
      (fun _ _ => False) h := by
  have hMem := hAcc.balanced.mem_of_rooted hRooted
  have hOut := out_array hAcc hMem hBody
  have hPool :
      h.tPool = some a →
        ∃ items', KObjectBody.list (items ++ [o]) =
          .array items' := by
    intro hp
    exact absurd hp (hAcc.not_pool_of_list hBody)
  simp only [listAddObject, wp_bind, wp_listItems hBody]
  cases granted with
  | false => exact ⟨⟨g, hAcc⟩, rfl⟩
  | true =>
      have hAppend :=
        hAcc.wp_append hRooted hNode hRoom
          (.list (items ++ [o]))
          (by rw [hOut]; rfl) hPool
      rw [wp_bind] at hAppend
      simp only [if_true, wp_bind, wp_pure]
      exact hAppend

/- The element is released and then taken out. -/
theorem wp_arrayRemoveObjectAtIndex
    (hAcc : Accounts (fun _ => False) base h g [])
    (hRooted : g.Rooted base a)
    {items : List KObjectRef}
    (hBody : h.body? a = some (.array items))
    (index : Nat) :
    wp (arrayRemoveObjectAtIndex (some a) index)
      (fun _ h' => Settled base h.tPool [] h')
      (fun _ _ => False) h := by
  have hMem := hAcc.balanced.mem_of_rooted hRooted
  have hOut := out_array hAcc hMem hBody
  simp only [arrayRemoveObjectAtIndex, wp_bind,
    wp_arrayItems hBody]
  cases hItem : items[index]? with
  | none => exact ⟨⟨g, hAcc⟩, rfl⟩
  | some item =>
      have hDetach :=
        hAcc.wp_detach hRooted (items.eraseIdx index) [item]
          (by
            intro x
            rw [hOut]
            exact count_eraseIdx_add hItem x)
          (fun _ _ h => h.wp_objectRelease)
      simp only [wp_bind]
      apply wp_imp hDetach
      intro _ h' hAfter
      rcases hAfter with ⟨hPool, hSame, g', hDone, hKept⟩
      rw [hBody] at hSame
      rw [wp_arrayItems hSame]
      exact
        hDone.wp_settle hPool (.array (items.eraseIdx index))
          hKept (fun _ => ⟨_, rfl⟩)

/- All elements are released and then forgotten. -/
theorem wp_arrayRemoveAllObjects
    (hAcc : Accounts (fun _ => False) base h g [])
    (hRooted : g.Rooted base a)
    {items : List KObjectRef}
    (hBody : h.body? a = some (.array items)) :
    wp (arrayRemoveAllObjects a)
      (fun _ h' => Settled base h.tPool [] h')
      (fun _ _ => False) h := by
  have hMem := hAcc.balanced.mem_of_rooted hRooted
  have hOut := out_array hAcc hMem hBody
  have hDetach :=
    hAcc.wp_detach hRooted [] items
      (by
        intro x
        rw [hOut, List.count_nil, Nat.zero_add]
        rfl)
      (fun _ _ h => h.wp_releaseItems items)
  simp only [arrayRemoveAllObjects, wp_bind,
    wp_arrayItems hBody]
  apply wp_imp hDetach
  intro _ h' hAfter
  rcases hAfter with ⟨hPool, hSame, g', hDone, hKept⟩
  rw [hBody] at hSame
  rw [wp_arrayItems hSame]
  exact
    hDone.wp_settle hPool (.array []) hKept
      (fun _ => ⟨_, rfl⟩)

/- The assertion on the removed count holds. -/
theorem wp_listRemoveAllObjects
    (hAcc : Accounts (fun _ => False) base h g [])
    (hRooted : g.Rooted base a)
    {items : List KObjectRef}
    (hBody : h.body? a = some (.list items)) :
    wp (listRemoveAllObjects (some a))
      (fun _ h' => Settled base h.tPool [] h')
      (fun _ _ => False) h := by
  have hMem := hAcc.balanced.mem_of_rooted hRooted
  have hOut := out_array hAcc hMem hBody
  have hNotPool := hAcc.not_pool_of_list hBody
  have hDetach :=
    hAcc.wp_detach hRooted [] items
      (by
        intro x
        rw [hOut, List.count_nil, Nat.zero_add]
        rfl)
      (fun _ _ h => h.wp_releaseItems items)
  simp only [listRemoveAllObjects, wp_bind,
    wp_listItems hBody]
  apply wp_imp hDetach
  intro _ h' hAfter
  rcases hAfter with ⟨hPool, hSame, g', hDone, hKept⟩
  rw [hBody] at hSame
  rw [wp_listItems hSame, if_pos rfl, wp_bind]
  exact
    hDone.wp_settle hPool (.list []) hKept
      (fun hp => absurd hp hNotPool)

/- The removed item is pending: the caller has to release it. -/
theorem wp_listRemoveObjectAtIndex
    (hAcc : Accounts (fun _ => False) base h g [])
    (hRooted : g.Rooted base a)
    {items : List KObjectRef}
    (hBody : h.body? a = some (.list items))
    (index : Nat) :
    wp (listRemoveObjectAtIndex (some a) index)
      (fun r h' => Settled base h.tPool r.toList h')
      (fun _ _ => False) h := by
  have hMem := hAcc.balanced.mem_of_rooted hRooted
  have hOut := out_array hAcc hMem hBody
  have hNotPool := hAcc.not_pool_of_list hBody
  simp only [listRemoveObjectAtIndex, wp_bind,
    wp_listItems hBody]
  cases hItem : items[index]? with
  | none => exact ⟨⟨g, hAcc⟩, rfl⟩
  | some item =>
      have hPinned :=
        hAcc.pin hRooted (items.eraseIdx index) [item]
          (by
            intro x
            rw [hOut, List.count_nil, Nat.add_zero]
            exact count_eraseIdx_add hItem x)
      have hKept :
          (g.setOut a (items.eraseIdx index)).out a =
            items.eraseIdx index := by
        simp [RefGraph.setOut]
      simp only [wp_bind]
      exact
        hPinned.wp_settle rfl (.list (items.eraseIdx index))
          hKept (fun hp => absurd hp hNotPool)

end Accounts

end Heap

end KDoth

------------------------------------------------------------
-- The Autorelease Pool
------------------------------------------------------------

namespace KDoth

namespace Heap

/- The references of a client and of the thread's pool. -/
def rootsOf
    (held : KObjectRef → Nat)
    (tPool : Option KObjectRef)
    (o : KObjectRef) : Nat :=
  held o + tPool.toList.count o

open Command

variable {held : KObjectRef → Nat}
variable {h : Heap} {g : RefGraph KObjectRef}
variable {o : KObjectRef}

/- The client and the pool account for all references. -/
def Accounted
    (held : KObjectRef → Nat)
    (pending : List KObjectRef)
    (h : Heap) : Prop :=
  ∃ g,
    Accounts (fun _ => False) (rootsOf held h.tPool) h g pending

theorem rootsOf_pool
    (held : KObjectRef → Nat)
    (p : KObjectRef) :
    0 < rootsOf held (some p) p := by
  simp [rootsOf]

/- The client gives up references or takes them over. -/
theorem Accounted.shift
    {held' : KObjectRef → Nat}
    {pending pending' : List KObjectRef}
    (hAccounted : Accounted held pending h)
    (hSame :
      ∀ x,
        held' x + pending'.count x =
          held x + pending.count x) :
    Accounted held' pending' h := by
  rcases hAccounted with ⟨g, hAcc⟩
  refine ⟨g, hAcc.shift ?_ ?_ ?_⟩
  · intro x
    have hx := hSame x
    unfold rootsOf
    omega
  · intro x hx
    exact hx.elim
  · intro p hp
    rw [hp]
    exact rootsOf_pool held' p

theorem Accounted.of_settled
    {pending : List KObjectRef}
    {h' : Heap}
    (hSettled :
      Accounts.Settled (rootsOf held h.tPool) h.tPool pending h') :
    Accounted held pending h' := by
  rcases hSettled with ⟨⟨g', hAcc⟩, hPool⟩
  unfold Accounted
  rw [hPool]
  exact ⟨g', hAcc⟩

/- Releasing a reference that the client held. -/
theorem Accounted.wp_objectRelease
    (hAccounted : Accounted held [o] h) :
    wp (objectRelease (some o))
      (fun _ h' => Accounted held [] h')
      (fun _ _ => False) h := by
  rcases hAccounted with ⟨g, hAcc⟩
  apply wp_imp hAcc.wp_objectRelease
  intro _ h' hAfter
  rcases hAfter with ⟨g', hShrunk, hDone⟩
  rw [← hShrunk.tPool] at hDone
  exact ⟨g', hDone⟩

namespace Accounts

/- A new array becomes the pool of the thread. -/
theorem setPool
    {p : KObjectRef}
    (hAcc :
      Accounts (fun _ => False) (rootsOf held none) h g [p])
    {items : List KObjectRef}
    (hBody : h.body? p = some (.array items)) :
    Accounts (fun _ => False) (rootsOf held (some p))
      { h with tPool := some p } g [] := by
  constructor
  · constructor
    · exact hAcc.models
    · apply hAcc.balanced.shift
      intro x
      simp [rootsOf]
    · intro x hx
      exact hx.elim
  · exact hAcc.live
  · exact hAcc.bounded
  · exact hAcc.nodup
  · exact hAcc.dead
  · intro q hq
    cases hq
    exact ⟨rootsOf_pool held p, items, hBody⟩

/- The pool exists afterwards, unless it was refused. -/
theorem wp_autoreleasePool
    (hAcc :
      Accounts (fun _ => False) (rootsOf held h.tPool) h g [])
    (hNode : o ∈ g.nodes)
    (answers : PoolAnswers)
    (hAnswers : answers.array = true → answers.items = true) :
    wp (autoreleasePool answers)
      (fun r h' =>
        h'.tPool = r ∧ h'.count o = h.count o ∧
          ∃ g',
            Accounts (fun _ => False) (rootsOf held r) h' g' [] ∧
              o ∈ g'.nodes)
      (fun _ _ => False) h := by
  simp only [autoreleasePool, wp_bind, wp_get]
  cases hPool : h.tPool with
  | some p =>
      rw [hPool] at hAcc
      exact ⟨hPool, rfl, g, hAcc, hNode⟩
  | none =>
      simp only [arrayNew, wp_bind]
      rw [hPool] at hAcc
      apply wp_imp (wp_objectNew (.array []) [] hAcc answers.array)
      intro r h' hAfter
      cases r with
      | none =>
          have hSame : h' = h := hAfter.1 rfl
          have hKept : { h with tPool := none } = h := by
            rw [← hPool]
          rw [wp_pure, wp_modify, wp_pure, hSame, hKept]
          exact ⟨hPool, rfl, g, hAcc, hNode⟩
      | some p =>
          rcases hAfter.2 p rfl with
            ⟨hGranted, hBody, _, hOthers, hNew⟩
          simp only [hAnswers hGranted, if_true, wp_pure,
            wp_modify]
          refine
            ⟨trivial, ?_, g.insert p [], setPool hNew hBody,
              Finset.mem_insert_of_mem hNode⟩
          simp only [count, hOthers o hNode]

theorem wp_autoreleasePoolAddObject
    (hAcc :
      Accounts (fun _ => False) (rootsOf held h.tPool) h g [])
    (hNode : o ∈ g.nodes)
    (hRoom : h.count o + 1 < 2 ^ 32)
    (answers : PoolAnswers)
    (hAnswers : answers.array = true → answers.items = true) :
    wp (autoreleasePoolAddObject (some o) answers)
      (fun _ h' => Accounted held [] h')
      (fun _ _ => False) h := by
  simp only [autoreleasePoolAddObject, wp_bind]
  apply wp_imp (wp_autoreleasePool hAcc hNode answers hAnswers)
  intro r h' hAfter
  rcases hAfter with ⟨hPool, hCount, g', hAcc', hNode'⟩
  cases r with
  | none =>
      rw [← hPool] at hAcc'
      exact ⟨g', hAcc'⟩
  | some p =>
      rcases hAcc'.pool p hPool with ⟨hBase, items, hBody⟩
      rw [← hCount] at hRoom
      have hAdd :=
        hAcc'.wp_arrayAddObject (.root hBase) hBody hNode'
          hRoom answers.growth
      apply wp_imp hAdd
      intro _ h'' hSettled
      rw [← hPool] at hSettled
      exact Accounted.of_settled hSettled

end Accounts

end Heap

end KDoth
