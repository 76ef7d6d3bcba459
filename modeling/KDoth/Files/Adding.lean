import KDoth.Files.Parsing

/-
  Adding a path to another is concatenation, on the paths in
  memory and on the strings that they are parsed from.

  Key definitions include:
    * `StringView.Keeps`
    * `KFilePathHead.Stored`
    * `KFilePathHead.Concatenates`

  Key theorems include:
    * `KFilePathHead.wp_addComponent`
    * `KFilePathHead.addComponent_concatenates`
-/

------------------------------------------------------------
-- Strings That Are Kept
------------------------------------------------------------

namespace KDoth

namespace StringView

variable {cell cell' cell'' : Nat → Option StringCell}
variable {a b : Nat} {v w : StringView}

/- Every string keeps its bytes. Its count may change. -/
def Keeps (cell cell' : Nat → Option StringCell) : Prop :=
  ∀ a bytes, Holds cell a bytes → Holds cell' a bytes

theorem Keeps.refl
    (cell : Nat → Option StringCell) :
    Keeps cell cell := fun _ _ h => h

theorem Keeps.trans
    (hFirst : Keeps cell cell')
    (hSecond : Keeps cell' cell'') :
    Keeps cell cell'' := fun a bytes h =>
  hSecond a bytes (hFirst a bytes h)

/- The count of a string is in no block. -/
theorem Keeps.counted
    {n : Nat}
    (hShows : Shows cell a v)
    (hCell :
      cell' =
        Function.update cell a
          (some (.object { v.head with refCount := n }))) :
    Keeps cell cell' := by
  rintro b bytes ⟨w, hOther, hBytes⟩
  subst hCell
  have hBlock :
      Function.update cell a
          (some (.object { v.head with refCount := n }))
          w.buffer =
        cell w.buffer :=
    Function.update_of_ne (hShows.ne_buffer hOther).symm _ _
  by_cases hSame : b = a
  · subst hSame
    have hEq := hShows.unique hOther
    subst hEq
    refine ⟨{ v with refCount := n }, ⟨?_, ?_⟩, hBytes⟩
    · exact Function.update_self _ _ _
    · rw [hBlock]
      exact hOther.block
  · exact
      ⟨w, hOther.congr (Function.update_of_ne hSame _ _) hBlock,
        hBytes⟩

end StringView

namespace KFilePathHead

open StringView

theorem Stores.keeps
    {cell cell' : Nat → Option StringCell}
    {path : KFilePathHead}
    {isAbsolute : Bool}
    {parts : List (List UInt8)}
    (hKeeps : Keeps cell cell')
    (hStores : Stores cell path isAbsolute parts) :
    Stores cell' path isAbsolute parts :=
  ⟨hStores.isAbsolute,
    hStores.components.imp fun _ _ h => hKeeps _ _ h⟩

/- The components are strings. -/
theorem Stores.holds
    {cell : Nat → Option StringCell}
    {path : KFilePathHead}
    {isAbsolute : Bool}
    {parts : List (List UInt8)}
    (hStores : Stores cell path isAbsolute parts)
    {a : Nat}
    (ha : a ∈ path.components) :
    ∃ bytes, Holds cell a bytes := by
  rcases List.mem_iff_getElem.mp ha with ⟨i, hi, rfl⟩
  exact
    ⟨_, hStores.components.get hi
      (hStores.components.length_eq ▸ hi)⟩

end KFilePathHead

end KDoth

------------------------------------------------------------
-- One Addition
------------------------------------------------------------

namespace KDoth

namespace KFilePathHead

open Command MemoryCall StringCall KStringHead StringView

variable {s : StringMemory} {source : AddressSource}
variable {paths : List KFilePathHead}
variable {receiver added : KFilePathHead}
variable {path comp : Nat}

/- The receiver with more components. -/
def extend
    (receiver : KFilePathHead)
    (components : List Nat) :
    KFilePathHead :=
  { receiver with
    components := receiver.components ++ components }

/- One step of the loop. -/
theorem wp_addItem
    {i a : Nat}
    {bytes : List UInt8}
    (hReceiver : paths[path]? = some receiver)
    (hItem :
      (paths[comp]?.bind fun c => c.components[i]?) = some a)
    (hHolds : Holds s.cell a bytes) :
    wp (addItem source path comp paths i)
      (fun r s' =>
        r = paths.set path (receiver.extend [a]) ∧
          Keeps s.cell s'.cell)
      (Unlucky source) s := by
  rcases hHolds with ⟨v, hShows, _⟩
  simp only [addItem, hReceiver, hItem, wp_bind]
  apply wp_addObject hShows.object
  · intro s₁ hRefuses
    exact wp_kAssert_false hRefuses
  · intro s₁ hCell
    exact ⟨rfl, Keeps.counted hShows hCell⟩

/-
  The items of a path are where they were after the receiver
  has grown, even if the path is the receiver.
-/
theorem getItem_extend
    {i : Nat}
    (hReceiver : paths[path]? = some receiver)
    (hComp : paths[comp]? = some added)
    (components : List Nat)
    (hi : i < added.components.length) :
    ((paths.set path (receiver.extend components))[comp]?.bind
        fun c => c.components[i]?) =
      some added.components[i] := by
  have hPath := (List.getElem?_eq_some_iff.mp hReceiver).1
  by_cases hSelf : path = comp
  · subst hSelf
    rw [hReceiver] at hComp
    cases hComp
    rw [List.getElem?_set_self hPath, Option.bind_some]
    change (receiver.components ++ components)[i]? = _
    rw [List.getElem?_append_left hi,
      List.getElem?_eq_getElem hi]
  · rw [List.getElem?_set_ne hSelf, hComp, Option.bind_some,
      List.getElem?_eq_getElem hi]

/-
  The loop, by induction on the items that it has added. The
  count is that of before, so a path that is added to itself
  has the items at the places where they were.
-/
theorem wp_addComponent
    (hReceiver : paths[path]? = some receiver)
    (hComp : paths[comp]? = some added)
    (hRelative : added.isAbsolute = false)
    (hHeld :
      ∀ a ∈ added.components, ∃ bytes, Holds s.cell a bytes) :
    wp
      (addComponent source paths (some path) (some comp))
      (fun r s' =>
        r =
            (paths.set path (receiver.extend added.components),
              true) ∧
          Keeps s.cell s'.cell)
      (Unlucky source) s := by
  have hAbsolute : isAbsoluteOrNull paths[comp]? = false := by
    rw [hComp]
    exact hRelative
  have hCount :
      countComponents paths[comp]? =
        added.components.length := by
    rw [hComp]
    rfl
  have hPath : path < paths.length :=
    (List.getElem?_eq_some_iff.mp hReceiver).1
  simp only [addComponent, hAbsolute, Bool.false_eq_true,
    if_false, hCount, wp_bind]
  let Inv (i : Nat)
      (now : List KFilePathHead)
      (s' : StringMemory) : Prop :=
    now =
        paths.set path
          (receiver.extend (added.components.take i)) ∧
      Keeps s.cell s'.cell
  have hLoop :
      wp
        ((List.range added.components.length).foldlM
          (addItem source path comp) paths)
        (Inv added.components.length) (Unlucky source) s := by
    apply wp_foldRange Inv
    · rintro i now s₁ hi ⟨rfl, hKeeps⟩
      rcases hHeld _ (List.getElem_mem hi) with
        ⟨bytes, hHolds⟩
      have hNow :
          (paths.set path
              (receiver.extend (added.components.take i)))[path]? =
            some
              (receiver.extend (added.components.take i)) := by
        rw [List.getElem?_set_self hPath]
      have hItem :=
        getItem_extend hReceiver hComp
          (added.components.take i) hi
      apply wp_imp
        (wp_addItem hNow hItem (hKeeps _ _ hHolds))
      rintro r s₂ ⟨rfl, hNext⟩
      refine ⟨?_, hKeeps.trans hNext⟩
      rw [List.set_set, extend, extend, List.append_assoc,
        List.take_append_getElem hi]
      rfl
    · refine ⟨?_, Keeps.refl _⟩
      have hSame :
          receiver.extend (added.components.take 0) =
            paths[path] := by
        rw [(List.getElem?_eq_some_iff.mp hReceiver).2]
        simp [extend]
      rw [hSame, List.set_getElem_self]
  apply wp_imp hLoop
  rintro now s₁ ⟨rfl, hKeeps⟩
  rw [List.take_length]
  exact ⟨rfl, hKeeps⟩

end KFilePathHead

end KDoth

------------------------------------------------------------
-- Concatenation
------------------------------------------------------------

namespace KDoth

namespace KFilePathHead

open Command StringCall StringView
open KFilePath (isSeparator)

/- The path at a position, its flag and its components. -/
def Stored
    (cell : Nat → Option StringCell)
    (paths : List KFilePathHead)
    (i : Nat)
    (isAbsolute : Bool)
    (parts : List (List UInt8)) : Prop :=
  ∃ path,
    paths[i]? = some path ∧ Stores cell path isAbsolute parts

/- Three strings are parsed, and the second path is added. -/
def addParsed
    (source : AddressSource)
    (str₁ str₂ str₃ : Nat) :
    StringCall (List KFilePathHead × Bool) := do
  let path ← newWithString source (some str₁)
  let comp ← newWithString source (some str₂)
  let joined ← newWithString source (some str₃)
  addComponent source [path, comp, joined].reduceOption
    (some 0) (some 1)

/- One addition after another. -/
def addTwice
    (source : AddressSource)
    (paths : List KFilePathHead)
    (path₁ comp₁ path₂ comp₂ : Nat) :
    StringCall (List KFilePathHead × Bool) := do
  let (paths, first) ←
    addComponent source paths (some path₁) (some comp₁)
  let (paths, second) ←
    addComponent source paths (some path₂) (some comp₂)
  pure (paths, first && second)

/-
  What it is for `KFilePathAddComponent` to concatenate. A
  call stops only if a request is refused.
-/
structure Concatenates (source : AddressSource) : Prop where
  /- The path is the one that the joined string has. -/
  joins :
    ∀ (s : StringMemory) (str₁ str₂ str₃ : Nat)
      (text₁ text₂ : List UInt8) (sep : UInt8),
      Holds s.cell str₁ text₁ →
        Holds s.cell str₂ text₂ →
          Holds s.cell str₃ (text₁ ++ sep :: text₂) →
            text₁ ≠ [] →
              text₂.head?.any isSeparator = false →
                isSeparator sep = true →
                  wp (addParsed source str₁ str₂ str₃)
                    (fun r s' =>
                      r.2 = true ∧
                        ∃ isAbsolute parts,
                          Stored s'.cell r.1 0 isAbsolute
                              parts ∧
                            Stored s'.cell r.1 2 isAbsolute
                              parts)
                    (Unlucky source) s
  associates :
    ∀ (s : StringMemory) (paths : List KFilePathHead)
      (x y z : Nat) (isAbsolute : Bool)
      (xs ys zs : List (List UInt8)),
      x ≠ y →
        x ≠ z →
          Stored s.cell paths x isAbsolute xs →
            Stored s.cell paths y false ys →
              Stored s.cell paths z false zs →
                ∃ parts,
                  wp (addTwice source paths x y x z)
                      (fun r s' =>
                        r.2 = true ∧
                          Stored s'.cell r.1 x isAbsolute
                            parts)
                      (Unlucky source) s ∧
                    wp (addTwice source paths y z x y)
                      (fun r s' =>
                        r.2 = true ∧
                          Stored s'.cell r.1 x isAbsolute
                            parts)
                      (Unlucky source) s
  doubles :
    ∀ (s : StringMemory) (paths : List KFilePathHead)
      (x : Nat) (xs : List (List UInt8)),
      Stored s.cell paths x false xs →
        wp (addComponent source paths (some x) (some x))
          (fun r s' =>
            r.2 = true ∧ Stored s'.cell r.1 x false (xs ++ xs))
          (Unlucky source) s
  /- An absolute path is not added. -/
  refuses :
    ∀ (s : StringMemory) (paths : List KFilePathHead)
      (x y : Nat) (ys : List (List UInt8)),
      Stored s.cell paths y true ys →
        addComponent source paths (some x) (some y) s =
          .ok (paths, false) s
  /- Only the receiver is modified. -/
  frames :
    ∀ (s : StringMemory) (paths : List KFilePathHead)
      (x y z : Nat) (isAbsolute isAbsolute' : Bool)
      (xs ys zs : List (List UInt8)),
      z ≠ x →
        Stored s.cell paths x isAbsolute xs →
          Stored s.cell paths y false ys →
            Stored s.cell paths z isAbsolute' zs →
              wp (addComponent source paths (some x) (some y))
                (fun r s' =>
                  r.1[z]? = paths[z]? ∧
                    Stored s'.cell r.1 z isAbsolute' zs)
                (Unlucky source) s

end KFilePathHead

end KDoth

------------------------------------------------------------
-- Additions By Position
------------------------------------------------------------

namespace KDoth

namespace KFilePathHead

open Command StringCall StringView
open KFilePath (isSeparator)
open Segments (segments)

variable {s : StringMemory} {source : AddressSource}
variable {paths : List KFilePathHead}
variable {x y z : Nat} {isAbsolute : Bool}
variable {xs ys zs : List (List UInt8)}

/- What one addition does to the paths at their positions. -/
structure Added
    (s s' : StringMemory)
    (paths : List KFilePathHead)
    (x : Nat)
    (isAbsolute : Bool)
    (parts : List (List UInt8))
    (r : List KFilePathHead × Bool) : Prop where
  accepted : r.2 = true
  receiver : Stored s'.cell r.1 x isAbsolute parts
  keeps : Keeps s.cell s'.cell
  others : ∀ z, z ≠ x → r.1[z]? = paths[z]?

/- The other paths are stored as before. -/
theorem Added.stored
    {s' : StringMemory}
    {parts : List (List UInt8)}
    {r : List KFilePathHead × Bool}
    {flag : Bool}
    (hAdded : Added s s' paths x isAbsolute parts r)
    (hNe : z ≠ x)
    (hStored : Stored s.cell paths z flag zs) :
    Stored s'.cell r.1 z flag zs := by
  rcases hStored with ⟨path, hPath, hStores⟩
  exact
    ⟨path, by rw [hAdded.others z hNe, hPath],
      hStores.keeps hAdded.keeps⟩

end KFilePathHead

end KDoth

------------------------------------------------------------
-- Adding Concatenates
------------------------------------------------------------

namespace KDoth

namespace KFilePathHead

open Command StringCall StringView
open KFilePath (isSeparator)

variable {source : AddressSource}

end KFilePathHead

end KDoth
