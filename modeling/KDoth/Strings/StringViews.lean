import KDoth.Strings.KStringHead

/-
  What the calls on strings do to the memory. A string in
  memory is seen as its bytes and the rest of its block, and
  a call leaves alone what is not its own.

  Key definitions include:
    * `StringView`
    * `StringView.Shows`
    * `StringView.Made`
    * `StringView.Changed`

  Key theorems include:
    * `KStringHead.wp_newWithData`
    * `KStringHead.wp_copy`
    * `KStringHead.wp_append`
    * `KStringHead.wp_isEqual`
-/

------------------------------------------------------------
-- Views
------------------------------------------------------------

namespace KDoth

/-
  A string in memory: the count and the buffer of its object,
  its bytes, and what follows them in the block.
-/
@[ext]
structure StringView where
  refCount : Nat
  buffer : Nat
  bytes : List UInt8
  extra : List (Option UInt8)

namespace StringView

variable {cell cell' cell'' : Nat → Option StringCell}
variable {a b : Nat} {v w : StringView}

/- The object that such a string has. -/
def head (v : StringView) : KStringHead where
  refCount := v.refCount
  size := v.bytes.length
  buffer := some v.buffer

/- The string is in memory, and all its bytes were written. -/
structure Shows
    (cell : Nat → Option StringCell)
    (a : Nat)
    (v : StringView) : Prop where
  object : cell a = some (.object v.head)
  block :
    ∃ b,
      cell v.buffer = some (.block b) ∧
        b.bytes = v.bytes.map some ++ v.extra

/- The string is new and nothing else has changed. -/
structure Made
    (cell cell' : Nat → Option StringCell)
    (a : Nat)
    (v : StringView) : Prop where
  object : cell a = none
  block : cell v.buffer = none
  shows : Shows cell' a v
  frame : ∀ b, b ≠ a → b ≠ v.buffer → cell' b = cell b

/-
  The string was made and changed since. What was there
  before it is as it was.
-/
structure Grown
    (cell cell' : Nat → Option StringCell)
    (a : Nat)
    (v : StringView) : Prop where
  object : cell a = none
  block : cell v.buffer = none
  shows : Shows cell' a v
  kept : Extends cell cell'

/-
  The string has another view, with its block where it was
  or at an address that was free. Nothing else has changed.
-/
structure Changed
    (cell cell' : Nat → Option StringCell)
    (a : Nat)
    (v w : StringView) : Prop where
  moved : w.buffer = v.buffer ∨ cell w.buffer = none
  shows : Shows cell' a w
  frame :
    ∀ b, b ≠ a → b ≠ v.buffer → b ≠ w.buffer →
      cell' b = cell b

end StringView

end KDoth

------------------------------------------------------------
-- Facts About Views
------------------------------------------------------------

namespace KDoth

theorem Extends.refl
    (cell : Nat → Option StringCell) :
    Extends cell cell := fun _ _ h => h

theorem Extends.trans
    {cell cell' cell'' : Nat → Option StringCell}
    (hFirst : Extends cell cell')
    (hSecond : Extends cell' cell'') :
    Extends cell cell'' := fun a c h =>
  hSecond a c (hFirst a c h)

/- What is free later was free before. -/
theorem Extends.free
    {cell cell' : Nat → Option StringCell}
    (hExtends : Extends cell cell')
    {a : Nat}
    (hFree : cell' a = none) :
    cell a = none := by
  cases hCell : cell a with
  | none => rfl
  | some c =>
      rw [hExtends a c hCell] at hFree
      cases hFree

namespace StringView

variable {cell cell' cell'' : Nat → Option StringCell}
variable {a b : Nat} {v w : StringView}

/- An object and a block are at different addresses. -/
theorem Shows.ne_buffer
    (hFirst : Shows cell a v)
    (hSecond : Shows cell b w) :
    a ≠ w.buffer := by
  intro hEq
  rcases hSecond.block with ⟨block, hBlock, _⟩
  rw [← hEq, hFirst.object] at hBlock
  cases hBlock

/- A string has one view. -/
theorem Shows.unique
    (hFirst : Shows cell a v)
    (hSecond : Shows cell a w) :
    v = w := by
  have hHead : v.head = w.head := by
    have hObject := hSecond.object
    rw [hFirst.object] at hObject
    exact StringCell.object.inj (Option.some.inj hObject)
  have hCount : v.refCount = w.refCount :=
    congrArg KStringHead.refCount hHead
  have hBuffer : v.buffer = w.buffer :=
    Option.some.inj (congrArg KStringHead.buffer hHead)
  have hLength : v.bytes.length = w.bytes.length :=
    congrArg KStringHead.size hHead
  rcases hFirst.block with ⟨block, hBlock, hBytes⟩
  rcases hSecond.block with ⟨other, hOther, hOthers⟩
  rw [← hBuffer, hBlock] at hOther
  cases hOther
  rw [hBytes] at hOthers
  have hParts :=
    List.append_inj hOthers
      (by rw [List.length_map, List.length_map, hLength])
  have hSame : v.bytes = w.bytes :=
    (List.map_inj_right fun _ _ h => Option.some.inj h).mp
      hParts.1
  exact StringView.ext hCount hBuffer hSame hParts.2

theorem Shows.mono
    (hExtends : Extends cell cell')
    (hShows : Shows cell a v) :
    Shows cell' a v := by
  rcases hShows.block with ⟨block, hBlock, hBytes⟩
  exact
    ⟨hExtends _ _ hShows.object,
      block, hExtends _ _ hBlock, hBytes⟩

/- Only two cells matter. -/
theorem Shows.congr
    (hShows : Shows cell a v)
    (hObject : cell' a = cell a)
    (hBlock : cell' v.buffer = cell v.buffer) :
    Shows cell' a v := by
  constructor
  · rw [hObject]
    exact hShows.object
  · rw [hBlock]
    exact hShows.block

/- The bytes of a string can be copied. -/
theorem Shows.readable
    (hShows : Shows cell a v)
    {start count : Nat}
    (hInside : start + count ≤ v.bytes.length) :
    (DataPointer.buffer (some v.buffer) start).Readable cell
      count (((v.bytes.drop start).take count).map some) := by
  rcases hShows.block with ⟨block, hBlock, hBytes⟩
  refine ⟨v.buffer, block, rfl, hBlock, ?_, ?_⟩
  · rw [hBytes, List.length_append, List.length_map]
    omega
  · rw [hBytes, List.drop_append_of_le_length, List.map_take,
      List.map_drop, List.take_append_of_le_length]
    · rw [List.length_drop, List.length_map]
      omega
    · rw [List.length_map]
      omega

theorem Shows.small
    (hShows : Shows cell a v) :
    v.bytes.length ≤ ptrdiffMax := by
  rcases hShows.block with ⟨block, _, hBytes⟩
  have hSmall := block.small
  rw [hBytes, List.length_append, List.length_map] at hSmall
  omega

theorem Made.extends
    (hMade : Made cell cell' a v) :
    Extends cell cell' := by
  intro b c hCell
  rw [hMade.frame b, hCell]
  · intro hEq
    rw [hEq, hMade.object] at hCell
    cases hCell
  · intro hEq
    rw [hEq, hMade.block] at hCell
    cases hCell

theorem Made.grown
    (hMade : Made cell cell' a v) :
    Grown cell cell' a v :=
  ⟨hMade.object, hMade.block, hMade.shows, hMade.extends⟩

/- The string changes again. -/
theorem Grown.changed
    (hGrown : Grown cell cell' a v)
    (hChanged : Changed cell' cell'' a v w) :
    Grown cell cell'' a w := by
  have hBlock : cell w.buffer = none := by
    rcases hChanged.moved with hSame | hFree
    · rw [hSame]
      exact hGrown.block
    · exact hGrown.kept.free hFree
  refine ⟨hGrown.object, hBlock, hChanged.shows, ?_⟩
  intro b c hCell
  have hNe (p : Nat) (hFree : cell p = none) : b ≠ p := by
    intro hEq
    rw [hEq, hFree] at hCell
    cases hCell
  rw [hChanged.frame b (hNe a hGrown.object)
    (hNe v.buffer hGrown.block) (hNe w.buffer hBlock)]
  exact hGrown.kept b c hCell

/- A string that is not the changed one stays as it is. -/
theorem Changed.kept
    {u : StringView}
    (hChanged : Changed cell cell' a v w)
    (hBefore : Shows cell a v)
    (hOther : Shows cell b u)
    (hNe : b ≠ a)
    (hApart : u.buffer ≠ v.buffer) :
    Shows cell' b u := by
  have hBuffer : u.buffer ≠ w.buffer := by
    rcases hChanged.moved with hSame | hFree
    · rw [hSame]
      exact hApart
    · intro hEq
      rcases hOther.block with ⟨block, hBlock, _⟩
      rw [hEq, hFree] at hBlock
      cases hBlock
  have hObject : b ≠ w.buffer := by
    rcases hChanged.moved with hSame | hFree
    · rw [hSame]
      exact hOther.ne_buffer hBefore
    · intro hEq
      have hCell := hOther.object
      rw [hEq, hFree] at hCell
      cases hCell
  apply hOther.congr
  · exact
      hChanged.frame b hNe (hOther.ne_buffer hBefore) hObject
  · exact
      hChanged.frame u.buffer
        (hBefore.ne_buffer hOther).symm hApart hBuffer

end StringView

end KDoth

------------------------------------------------------------
-- New Strings
------------------------------------------------------------

namespace KDoth

namespace KStringHead

open Command MemoryCall StringCall StringView

variable {s : StringMemory} {source : AddressSource}
variable {E : Fault → StringMemory → Prop}
variable {str : Nat} {v w : StringView}

/- A member of an object is written. -/
theorem wp_setSize
    {string : KStringHead}
    {size : Nat}
    {Q : Unit → StringMemory → Prop}
    (hLive : s.cell str = some (.object string)) :
    wp (setSize str size) Q E s ↔
      Q ()
        (s.setCell str
          (some (.object { string with size := size }))) := by
  simp only [setSize, wp_bind, wp_loadObject hLive,
    wp_storeObject hLive]

theorem wp_setBuffer
    {string : KStringHead}
    {buffer : Option Nat}
    {Q : Unit → StringMemory → Prop}
    (hLive : s.cell str = some (.object string)) :
    wp (setBuffer str buffer) Q E s ↔
      Q ()
        (s.setCell str
          (some
            (.object { string with buffer := buffer }))) := by
  simp only [setBuffer, wp_bind, wp_loadObject hLive,
    wp_storeObject hLive]

/- One more reference. -/
theorem wp_retain
    {string : KStringHead}
    {Q : Unit → StringMemory → Prop}
    (hLive : s.cell str = some (.object string)) :
    wp (retain str) Q E s ↔
      Q ()
        (s.setCell str
          (some
            (.object
              { string with
                refCount := string.refCount + 1 }))) := by
  simp only [retain, wp_bind, wp_loadObject hLive,
    wp_storeObject hLive]

/- A release that leaves references behind. -/
theorem wp_release_more
    {string : KStringHead}
    {Q : Unit → StringMemory → Prop}
    (hLive : s.cell str = some (.object string))
    (hMore : string.refCount ≠ 1) :
    wp (release str) Q E s ↔
      Q ()
        (s.setCell str
          (some
            (.object
              { string with
                refCount := string.refCount - 1 }))) := by
  simp only [release, wp_bind, wp_loadObject hLive,
    wp_storeObject hLive, if_neg hMore, wp_pure]

/-
  A string without a buffer is released for the last time, as
  by a constructor that gives up.
-/
theorem wp_release_unfinished
    {size : Nat}
    {Q : Unit → StringMemory → Prop}
    (hLive : s.cell str = some (.object ⟨1, size, none⟩))
    (hPost :
      ∀ s',
        s'.process = s.process →
          s'.cell = Function.update s.cell str none →
            Q () s') :
    wp (release str) Q E s := by
  simp only [release, wp_bind, wp_loadObject hLive,
    wp_storeObject hLive, if_true, freeBlock, wp_pure]
  rw [wp_free Memory.setCell_self]
  apply hPost
  · rfl
  · rw [Memory.setCell_cell, Memory.setCell_cell,
      Function.update_idem]

/- A string is released for the last time. -/
theorem wp_release_last
    {Q : Unit → StringMemory → Prop}
    (hShows : Shows s.cell str v)
    (hLast : v.refCount = 1)
    (hPost :
      ∀ s',
        s'.process = s.process →
          s'.cell str = none →
            s'.cell v.buffer = none →
              (∀ b, b ≠ str → b ≠ v.buffer →
                s'.cell b = s.cell b) →
                Q () s') :
    wp (release str) Q E s := by
  have hNe := hShows.ne_buffer hShows
  rcases hShows.block with ⟨block, hBlock, _⟩
  have hLive := hShows.object
  simp only [release, wp_bind, wp_loadObject hLive,
    wp_storeObject hLive, head, hLast, if_true]
  have hStill :
      (s.setCell str
        (some
          (.object
            ⟨0, v.bytes.length, some v.buffer⟩))).cell
          v.buffer = some (.block block) := by
    rw [Memory.setCell_of_ne hNe.symm]
    exact hBlock
  rw [wp_freeBlock hStill]
  have hObject :
      ((s.setCell str
          (some
            (.object
              ⟨0, v.bytes.length, some v.buffer⟩))).setCell
          v.buffer none).cell str =
        some (.object ⟨0, v.bytes.length, some v.buffer⟩) := by
    rw [Memory.setCell_of_ne hNe, Memory.setCell_self]
  rw [wp_free hObject]
  apply hPost
  · rfl
  · exact Memory.setCell_self
  · rw [Memory.setCell_of_ne hNe.symm, Memory.setCell_self]
  · intro b hStr hBuffer
    rw [Memory.setCell_of_ne hStr,
      Memory.setCell_of_ne hBuffer, Memory.setCell_of_ne hStr]

/-
  An object and its block are where nothing was, and nothing
  else has changed.
-/
structure Placed
    (cell cell' : Nat → Option StringCell)
    (str p : Nat)
    (string : KStringHead)
    (block : ByteBlock) : Prop where
  freeObject : cell str = none
  freeBlock : cell p = none
  ne : p ≠ str
  object : cell' str = some (.object string)
  block : cell' p = some (.block block)
  frame : ∀ b, b ≠ str → b ≠ p → cell' b = cell b

section Placing

variable {cell cell₁ cell₂ : Nat → Option StringCell}
variable {p : Nat} {string : KStringHead} {block : ByteBlock}

theorem Placed.of_updates
    (hFree : cell str = none)
    (hCell₁ :
      cell₁ =
        Function.update cell str (some (.object string)))
    (hFreeBlock : cell₁ p = none)
    (hCell₂ :
      cell₂ = Function.update cell₁ p (some (.block block))) :
    Placed cell cell₂ str p string block := by
  have hNe : p ≠ str := by
    intro hEq
    rw [hEq, hCell₁, Function.update_self] at hFreeBlock
    cases hFreeBlock
  constructor
  · exact hFree
  · rw [hCell₁, Function.update_of_ne hNe] at hFreeBlock
    exact hFreeBlock
  · exact hNe
  · rw [hCell₂, Function.update_of_ne hNe.symm, hCell₁,
      Function.update_self]
  · rw [hCell₂, Function.update_self]
  · intro b hStr hBuffer
    rw [hCell₂, Function.update_of_ne hBuffer, hCell₁,
      Function.update_of_ne hStr]

/- The members of the object are written. -/
theorem Placed.setObject
    (hPlaced : Placed cell s.cell str p string block)
    (string' : KStringHead) :
    Placed cell (s.setCell str (some (.object string'))).cell
      str p string' block where
  freeObject := hPlaced.freeObject
  freeBlock := hPlaced.freeBlock
  ne := hPlaced.ne
  object := Memory.setCell_self
  block := by
    rw [Memory.setCell_of_ne hPlaced.ne]
    exact hPlaced.block
  frame b hStr hBuffer := by
    rw [Memory.setCell_of_ne hStr]
    exact hPlaced.frame b hStr hBuffer

/- The bytes of the block are written. -/
theorem Placed.setBlock
    {block' : ByteBlock}
    (hPlaced : Placed cell cell₁ str p string block)
    (hCell₂ :
      cell₂ = Function.update cell₁ p (some (.block block'))) :
    Placed cell cell₂ str p string block' where
  freeObject := hPlaced.freeObject
  freeBlock := hPlaced.freeBlock
  ne := hPlaced.ne
  object := by
    rw [hCell₂, Function.update_of_ne hPlaced.ne.symm]
    exact hPlaced.object
  block := by rw [hCell₂, Function.update_self]
  frame b hStr hBuffer := by
    rw [hCell₂, Function.update_of_ne hBuffer]
    exact hPlaced.frame b hStr hBuffer

/- What was there before is as it was. -/
theorem Placed.extends
    (hPlaced : Placed cell cell₁ str p string block) :
    Extends cell cell₁ := by
  intro b c hCell
  have hStr : b ≠ str := by
    intro hEq
    rw [hEq, hPlaced.freeObject] at hCell
    cases hCell
  have hBuffer : b ≠ p := by
    intro hEq
    rw [hEq, hPlaced.freeBlock] at hCell
    cases hCell
  rw [hPlaced.frame b hStr hBuffer]
  exact hCell

/- An object of the size of its bytes shows a new string. -/
theorem Placed.made
    {refCount : Nat}
    {bytes : List UInt8}
    {extra : List (Option UInt8)}
    (hPlaced :
      Placed cell cell₁ str p
        ⟨refCount, bytes.length, some p⟩ block)
    (hBytes : block.bytes = bytes.map some ++ extra) :
    Made cell cell₁ str ⟨refCount, p, bytes, extra⟩ where
  object := hPlaced.freeObject
  block := hPlaced.freeBlock
  shows := ⟨hPlaced.object, block, hPlaced.block, hBytes⟩
  frame := hPlaced.frame

end Placing

/-
  The allocator refuses the object or the block of a string,
  with the requests from `n` on.
-/
def Refused
    (source : AddressSource)
    (n count : Nat) : Prop :=
  source n (.objectNew .kString) = none ∨
    source (n + 1) (.stringData count) = none

theorem Refused.refuses
    {n count : Nat}
    (hRefused : Refused source n count) :
    source.Refuses := by
  rcases hRefused with hObject | hBlock
  · exact ⟨_, _, hObject⟩
  · exact ⟨_, _, hBlock⟩

theorem Refused.unlucky
    {n count : Nat}
    (hRefused : Refused source n count)
    (s' : StringMemory) :
    Unlucky source (.stop .nullDereference) s' :=
  .inr ⟨hRefused.refuses, _, rfl⟩

/-
  A new string holds the bytes behind the pointer. NULL is
  returned only if a request was refused.
-/
theorem wp_newWithData
    {data : DataPointer}
    {bytes : List UInt8}
    {Q : Option Nat → StringMemory → Prop}
    (hOccupied : ∀ s', E .occupied s')
    (hReadable :
      data.Readable s.cell bytes.length (bytes.map some))
    (hStops :
      Refused source s.nextRequest bytes.length →
        ∀ s', E (.stop .nullDereference) s')
    (hNull :
      ∀ s',
        Refused source s.nextRequest bytes.length →
          s'.cell = s.cell → Q none s')
    (hMade :
      ¬ Refused source s.nextRequest bytes.length →
        ∀ a s' v,
          Made s.cell s'.cell a v →
            v.refCount = 1 → v.bytes = bytes → v.extra = [] →
              Q (some a) s') :
    wp (newWithData source data bytes.length) Q E s := by
  unfold newWithData
  rw [wp_bind]
  apply wp_objectNew_string hOccupied
  · intro s' hRefused _ hCell
    exact hNull s' (.inl hRefused) hCell
  · intro str s₁ hObject hFree hProcess hCell₁
    have hLive₁ :
        s₁.cell str = some (.object ⟨1, 0, none⟩) := by
      rw [hCell₁, Function.update_self]
    simp only [wp_bind, wp_setSize hLive₁]
    apply wp_malloc hOccupied
    · intro s₂ hRefused _ hCell₂
      have hRefuses : Refused source s.nextRequest bytes.length := by
        rcases hRefused with hNone | hLarge
        · right
          rw [Memory.setCell_process, hProcess,
            Process.requested_requests, List.length_append,
            List.length_singleton] at hNone
          exact hNone
        · exact absurd hReadable.small (by omega)
      have hLive₂ :
          s₂.cell str =
            some (.object ⟨1, bytes.length, none⟩) := by
        rw [hCell₂, Memory.setCell_self]
      rw [wp_setBuffer hLive₂]
      by_cases hZero : bytes.length = 0
      · simp only [hZero, decide_true, Option.isNone_none,
          Bool.and_self, if_true, wp_bind]
        apply wp_release_unfinished Memory.setCell_self
        intro s₃ _ hCell₃
        apply hNull s₃ hRefuses
        rw [hCell₃, Memory.setCell_cell, Function.update_idem,
          hCell₂, Memory.setCell_cell, Function.update_idem,
          hCell₁, Function.update_idem, ← hFree,
          Function.update_eq_self]
      · have hKept :
            data.Readable
              (s₂.setCell str
                (some
                  (.object
                    ⟨1, bytes.length, none⟩))).cell
              bytes.length (bytes.map some) := by
          apply hReadable.mono
          intro b c hCell
          have hNe : b ≠ str := by
            intro hEq
            rw [hEq, hFree] at hCell
            cases hCell
          rw [Memory.setCell_of_ne hNe, hCell₂,
            Memory.setCell_of_ne hNe, hCell₁,
            Function.update_of_ne hNe]
          exact hCell
        simp only [hZero, decide_false, Bool.false_and,
          Bool.false_eq_true, if_false, copyBytes, wp_bind]
        rw [wp_fetch hKept hZero]
        exact hStops hRefuses _
    · intro p s₂ block hAnswer hFreeBlock _ hCell₂ hBlock
      have hGranted : ¬ Refused source s.nextRequest bytes.length := by
        rw [Memory.setCell_process, hProcess,
          Process.requested_requests, List.length_append,
          List.length_singleton] at hAnswer
        rintro (hNone | hNone)
        · rw [hObject] at hNone
          cases hNone
        · rw [hNone] at hAnswer
          cases hAnswer
      have hSized :
          (s₁.setCell str
              (some (.object ⟨1, bytes.length, none⟩))).cell =
            Function.update s.cell str
              (some (.object ⟨1, bytes.length, none⟩)) := by
        rw [Memory.setCell_cell, hCell₁, Function.update_idem]
      have hPlaced :=
        Placed.of_updates hFree hSized hFreeBlock hCell₂
      rw [wp_setBuffer hPlaced.object]
      have hReady :=
        hPlaced.setObject ⟨1, bytes.length, some p⟩
      simp only [Option.isNone_some, Bool.and_false,
        Bool.false_eq_true, if_false, wp_bind]
      apply
        wp_copyBytes (hReadable.mono hReady.extends)
          hReady.block
      · rw [hBlock, List.length_replicate]
        omega
      · intro s₃ filled _ hCell₃ hFilled
        rw [hBlock, List.take_zero, List.nil_append,
          List.drop_of_length_le (by simp)] at hFilled
        have hMade₃ := (hReady.setBlock hCell₃).made hFilled
        exact hMade hGranted str s₃ _ hMade₃ rfl rfl rfl

/- The empty string. -/
theorem wp_new
    {Q : Option Nat → StringMemory → Prop}
    (hOccupied : ∀ s', E .occupied s')
    (hStops :
      Refused source s.nextRequest 0 →
        ∀ s', E (.stop .nullDereference) s')
    (hNull :
      ∀ s',
        Refused source s.nextRequest 0 →
          s'.cell = s.cell → Q none s')
    (hMade :
      ¬ Refused source s.nextRequest 0 →
        ∀ a s' v,
          Made s.cell s'.cell a v →
            v.refCount = 1 → v.bytes = [] → v.extra = [] →
              Q (some a) s') :
    wp (new source) Q E s :=
  @wp_newWithData s source E .null [] Q hOccupied ⟨rfl, rfl⟩
    hStops hNull hMade

/- A copy holds the bytes of the string. -/
theorem wp_copy
    {Q : Option Nat → StringMemory → Prop}
    (hOccupied : ∀ s', E .occupied s')
    (hShows : Shows s.cell str v)
    (hStops :
      Refused source s.nextRequest v.bytes.length →
        ∀ s', E (.stop .nullDereference) s')
    (hNull :
      ∀ s',
        Refused source s.nextRequest v.bytes.length →
          s'.cell = s.cell → Q none s')
    (hMade :
      ¬ Refused source s.nextRequest v.bytes.length →
        ∀ a s' w,
          Made s.cell s'.cell a w →
            w.refCount = 1 → w.bytes = v.bytes →
              w.extra = [] → Q (some a) s') :
    wp (copy source (some str)) Q E s := by
  have hReadable :=
    @Shows.readable _ _ v hShows 0 v.bytes.length (by omega)
  rw [List.drop_zero, List.take_length] at hReadable
  simp only [copy, wp_bind, wp_loadObject hShows.object]
  exact wp_newWithData hOccupied hReadable hStops hNull hMade

end KStringHead

end KDoth

------------------------------------------------------------
-- Appending
------------------------------------------------------------

namespace KDoth

namespace KStringHead

open Command MemoryCall StringCall StringView

variable {s : StringMemory} {source : AddressSource}
variable {E : Fault → StringMemory → Prop}
variable {str suffix : Nat} {v w : StringView}

/- The sizes of two blocks never wrap around. -/
theorem newSize_eq
    {cell : Nat → Option StringCell}
    (hString : Shows cell str v)
    (hSuffix : Shows cell suffix w) :
    (v.bytes.length + w.bytes.length + 1) % 2 ^ 64 =
        v.bytes.length + w.bytes.length + 1 ∧
      (v.bytes.length + w.bytes.length) % 2 ^ 64 =
        v.bytes.length + w.bytes.length := by
  have hFirst := hString.small
  have hSecond := hSuffix.small
  unfold ptrdiffMax at hFirst hSecond
  constructor <;> exact Nat.mod_eq_of_lt (by omega)

/-
  The end of `KStringAppend`: the size is written, and the
  terminator unless there is no byte.
-/
theorem wp_terminate
    {bytes : List UInt8}
    {last : Option UInt8}
    {p size refCount : Nat}
    {b : ByteBlock}
    {Q : Bool → StringMemory → Prop}
    (hObject :
      s.cell str = some (.object ⟨refCount, size, some p⟩))
    (hBlock : s.cell p = some (.block b))
    (hBytes : b.bytes = bytes.map some ++ [last])
    (hNe : p ≠ str)
    (hPost :
      ∀ s' extra,
        (bytes ≠ [] → extra = [some 0]) →
          Shows s'.cell str ⟨refCount, p, bytes, extra⟩ →
            (∀ c, c ≠ str → c ≠ p → s'.cell c = s.cell c) →
              Q true s') :
    wp
      (do
        setSize str bytes.length
        let string ← loadObject str
        if string.size ≠ 0 then
          write string.buffer string.size [some 0]
        pure true)
      Q E s := by
  simp only [wp_bind, wp_setSize hObject]
  rw [wp_loadObject Memory.setCell_self]
  have hStill :
      (s.setCell str
          (some
            (.object
              ⟨refCount, bytes.length, some p⟩))).cell p =
        some (.block b) := by
    rw [Memory.setCell_of_ne hNe]
    exact hBlock
  by_cases hZero : bytes = []
  · simp only [hZero, List.length_nil, ne_eq,
      not_true_eq_false, if_false, wp_pure]
    rw [hZero, List.length_nil] at hStill
    apply hPost _ [last]
    · intro hSome
      exact absurd hZero hSome
    · constructor
      · rw [hZero, Memory.setCell_self]
        rfl
      · exact ⟨b, hStill, hBytes⟩
    · intro c hStr _
      exact Memory.setCell_of_ne hStr
  · have hSize : bytes.length ≠ 0 := by
      simpa using hZero
    have hInside :
        bytes.length + [some (0 : UInt8)].length ≤
          b.bytes.length := by
      rw [hBytes]
      simp
    simp only [ne_eq, hSize, not_false_eq_true, if_true,
      wp_bind]
    rw [wp_write hStill hInside]
    apply hPost _ [some 0]
    · exact fun _ => rfl
    · constructor
      · rw [Memory.setCell_of_ne hNe.symm,
          Memory.setCell_self]
        rfl
      · refine ⟨_, Memory.setCell_self, ?_⟩
        simp only [ByteBlock.write, hBytes]
        rw [List.take_append_of_le_length (by simp),
          List.take_of_length_le (by simp),
          List.drop_of_length_le (by simp), List.append_nil]
    · intro c hStr hBuffer
      rw [Memory.setCell_of_ne hBuffer,
        Memory.setCell_of_ne hStr]

/- A block that has grown still starts with the bytes. -/
theorem resized_front
    {bytes : List UInt8}
    {extra resized : List (Option UInt8)}
    {size : Nat}
    (hSize : bytes.length ≤ size)
    (hResized :
      resized =
        (bytes.map some ++ extra).take size ++
          List.replicate
            (size - (bytes.map some ++ extra).length) none) :
    resized.length = size ∧
      resized.take bytes.length = bytes.map some := by
  have hOld :
      (bytes.map some ++ extra).length =
        bytes.length + extra.length := by
    rw [List.length_append, List.length_map]
  constructor
  · rw [hResized, List.length_append, List.length_take,
      List.length_replicate]
    omega
  · rw [hResized, List.take_append_of_le_length,
      List.take_take, Nat.min_eq_left hSize,
      List.take_append_of_le_length (by simp),
      List.take_of_length_le (by simp)]
    rw [List.length_take, hOld]
    omega

/-
  The bytes of the suffix where they are after the block of
  the string has moved: with it, if both are one string.
-/
theorem readable_moved
    {p : Nat}
    {b : ByteBlock}
    (hString : Shows s.cell str v)
    (hSuffix : Shows s.cell suffix w)
    (hApart : suffix = str ∨ w.buffer ≠ v.buffer)
    {cell : Nat → Option StringCell}
    (hObject :
      cell str =
        some (.object ⟨v.refCount, v.bytes.length, some p⟩))
    (hBlock : cell p = some (.block b))
    (hRoom : v.bytes.length ≤ b.bytes.length)
    (hBytes :
      b.bytes.take v.bytes.length = v.bytes.map some)
    (hFree : Function.update s.cell v.buffer none p = none)
    (hOthers :
      ∀ c, c ≠ str → c ≠ v.buffer → c ≠ p →
        cell c = s.cell c) :
    ∃ tail,
      cell suffix = some (.object tail) ∧
        tail.size = w.bytes.length ∧
          (DataPointer.buffer tail.buffer 0).Readable cell
            w.bytes.length (w.bytes.map some) := by
  by_cases hSame : suffix = str
  · subst hSame
    have hView : w = v := hSuffix.unique hString
    subst hView
    refine ⟨_, hObject, rfl, p, b, rfl, hBlock, ?_, ?_⟩
    · omega
    · rw [List.drop_zero, hBytes]
  · have hBuffer : w.buffer ≠ v.buffer := by
      rcases hApart with hEq | hNe
      · exact absurd hEq hSame
      · exact hNe
    have hOld : ∀ c, s.cell c ≠ none → c ≠ v.buffer → c ≠ p := by
      intro c hCell hNe hEq
      rw [← hEq, Function.update_of_ne hNe] at hFree
      exact hCell hFree
    have hKept : Shows cell suffix w := by
      have hFirst := hSuffix.ne_buffer hString
      have hSecond := hString.ne_buffer hSuffix
      apply hSuffix.congr
      · apply hOthers suffix hSame hFirst
        apply hOld suffix _ hFirst
        rw [hSuffix.object]
        nofun
      · apply hOthers w.buffer hSecond.symm hBuffer
        apply hOld w.buffer _ hBuffer
        rcases hSuffix.block with ⟨block, hCell, _⟩
        rw [hCell]
        nofun
    have hReadable :=
      @Shows.readable _ _ w hKept 0 w.bytes.length (by omega)
    rw [List.drop_zero, List.take_length] at hReadable
    exact ⟨w.head, hKept.object, rfl, hReadable⟩

/-
  Appending either changes nothing or makes the string its
  bytes and those of the suffix, which may be the string.
-/
theorem wp_append
    {Q : Bool → StringMemory → Prop}
    (hOccupied : ∀ s', E .occupied s')
    (hString : Shows s.cell str v)
    (hSuffix : Shows s.cell suffix w)
    (hApart : suffix = str ∨ w.buffer ≠ v.buffer)
    (hKept : ∀ s', s'.cell = s.cell → Q false s')
    (hGrown :
      ∀ s' u,
        Changed s.cell s'.cell str v u →
          u.refCount = v.refCount →
            u.bytes = v.bytes ++ w.bytes →
              (u.bytes ≠ [] → u.extra = [some 0]) →
                Q true s') :
    wp (append source (some str) (some suffix)) Q E s := by
  rcases newSize_eq hString hSuffix with ⟨hNewSize, hSum⟩
  have hNe := hString.ne_buffer hString
  rcases hString.block with ⟨b, hBlock, hBytes⟩
  simp only [append, wp_bind, wp_loadObject hString.object,
    wp_loadObject hSuffix.object]
  simp only [head, hNewSize]
  apply wp_realloc hOccupied hBlock (Nat.succ_ne_zero _)
  · intro s₁ _ hCell₁
    exact hKept s₁ hCell₁
  · intro p s₁ b' hFree _ hCell₁ hMoved
    have hStr : p ≠ str := by
      intro hEq
      rw [hEq, Function.update_of_ne hNe, hString.object]
        at hFree
      cases hFree
    have hLive₁ : s₁.cell str = some (.object v.head) := by
      rw [hCell₁, Function.update_of_ne hStr.symm,
        Function.update_of_ne hNe]
      exact hString.object
    rw [hBytes] at hMoved
    rcases resized_front (by omega) hMoved with
      ⟨hLength, hFront⟩
    simp only [wp_bind, wp_setBuffer hLive₁]
    simp only [head]
    generalize hMemory :
      s₁.setCell str
        (some
          (.object
            ⟨v.refCount, v.bytes.length, some p⟩)) = s₂
    have hObject₂ :
        s₂.cell str =
          some
            (.object ⟨v.refCount, v.bytes.length, some p⟩) := by
      rw [← hMemory, Memory.setCell_self]
    have hBlock₂ : s₂.cell p = some (.block b') := by
      rw [← hMemory, Memory.setCell_of_ne hStr, hCell₁,
        Function.update_self]
    have hOthers₂ :
        ∀ c, c ≠ str → c ≠ v.buffer → c ≠ p →
          s₂.cell c = s.cell c := by
      intro c hc hOld hNew
      rw [← hMemory, Memory.setCell_of_ne hc, hCell₁,
        Function.update_of_ne hNew, Function.update_of_ne hOld]
    rcases readable_moved hString hSuffix hApart hObject₂
        hBlock₂ (by omega) hFront hFree hOthers₂ with
      ⟨tail, hTail, hTailSize, hReadable⟩
    simp only [wp_loadObject hObject₂, wp_loadObject hTail,
      hTailSize, hSum]
    apply wp_copyBytes hReadable hBlock₂ (by omega)
    intro s₃ b₃ _ hCell₃ hBytes₃
    have hObject₃ :
        s₃.cell str =
          some
            (.object ⟨v.refCount, v.bytes.length, some p⟩) := by
      rw [hCell₃, Function.update_of_ne hStr.symm, hObject₂]
    have hBlock₃ : s₃.cell p = some (.block b₃) := by
      rw [hCell₃, Function.update_self]
    have hJoined :
        ∃ last,
          b₃.bytes =
            (v.bytes ++ w.bytes).map some ++ [last] := by
      have hLast :
          (b'.bytes.drop
            (v.bytes.length + w.bytes.length)).length = 1 := by
        rw [List.length_drop, hLength]
        omega
      rcases List.length_eq_one_iff.mp hLast with ⟨last, hEq⟩
      refine ⟨last, ?_⟩
      rw [hBytes₃, hFront, hEq, List.map_append]
    rcases hJoined with ⟨last, hJoined⟩
    have hEnd :=
      wp_terminate (E := E) (Q := Q) hObject₃
        hBlock₃ hJoined hStr (by
          intro s₄ extra hExtra hShows hOthers
          apply
            hGrown s₄
              ⟨v.refCount, p, v.bytes ++ w.bytes, extra⟩ _ rfl
              rfl hExtra
          constructor
          · by_cases hStay : p = v.buffer
            · exact .inl hStay
            · rw [Function.update_of_ne hStay] at hFree
              exact .inr hFree
          · exact hShows
          · intro c hc hOld hNew
            rw [hOthers c hc hNew, hCell₃,
              Function.update_of_ne hNew,
              hOthers₂ c hc hOld hNew])
    rw [List.length_append] at hEnd
    simp only [wp_bind] at hEnd
    exact hEnd

end KStringHead

end KDoth

------------------------------------------------------------
-- Comparing
------------------------------------------------------------

namespace KDoth

namespace KStringHead

open Command MemoryCall StringCall StringView

variable {s : StringMemory} {v w : StringView}
variable {E : Fault → StringMemory → Prop}
variable {str lhs rhs : Nat}

/- The values of all bytes of a string. -/
theorem wp_readBytes
    {count : Nat}
    {Q : List UInt8 → StringMemory → Prop}
    (hShows : Shows s.cell str v)
    (hCount : count = v.bytes.length) :
    wp (readBytes (some v.buffer) count) Q E s ↔
      Q v.bytes s := by
  unfold readBytes
  by_cases hZero : count = 0
  · have hNil : v.bytes = [] := by
      rw [← List.length_eq_zero_iff, ← hCount, hZero]
    rw [if_pos hZero, hNil, wp_pure]
  · have hReadable :=
      @Shows.readable _ _ v hShows 0 count (by omega)
    rw [List.drop_zero, hCount, List.take_length]
      at hReadable
    rw [if_neg hZero, wp_bind, hCount,
      wp_fetch hReadable (by omega), wp_defined]

theorem wp_getHash
    {Q : KHash → StringMemory → Prop}
    (hShows : Shows s.cell str v) :
    wp (getHash (some str)) Q E s ↔
      Q (KHash.combine (KHash.create v.bytes) 31) s := by
  simp only [getHash, wp_bind, wp_loadObject hShows.object]
  simp only [head, wp_readBytes hShows, wp_pure]

/- Strings are equal when their bytes are. -/
theorem wp_isEqual
    {Q : Bool → StringMemory → Prop}
    (hLeft : Shows s.cell lhs v)
    (hRight : Shows s.cell rhs w) :
    wp (isEqual (some lhs) (some rhs)) Q E s ↔
      Q (decide (v.bytes = w.bytes)) s := by
  simp only [isEqual]
  by_cases hSame : lhs = rhs
  · have hView : w = v := by
      rw [hSame] at hLeft
      exact hRight.unique hLeft
    rw [if_pos hSame, hView, decide_eq_true rfl, wp_pure]
  · simp only [if_neg hSame, wp_bind,
      wp_loadObject hLeft.object, wp_loadObject hRight.object]
    simp only [head]
    by_cases hSize : v.bytes.length = w.bytes.length
    · by_cases hZero : v.bytes.length = 0
      · have hFirst : v.bytes = [] :=
          List.length_eq_zero_iff.mp hZero
        have hSecond : w.bytes = [] := by
          rw [← List.length_eq_zero_iff, ← hSize, hZero]
        simp [hFirst, hSecond]
      · have hCompare :
            (v.bytes == w.bytes) = decide (v.bytes = w.bytes) := by
          rw [Bool.eq_iff_iff, beq_iff_eq, decide_eq_true_iff]
        simp only [hSize, ne_eq, not_true_eq_false, if_false]
        rw [if_neg (by omega), wp_bind,
          wp_readBytes hLeft hSize.symm, wp_bind,
          wp_readBytes hRight rfl, wp_pure, hCompare]
    · have hDiffer : v.bytes ≠ w.bytes := by
        intro hEq
        rw [hEq] at hSize
        exact hSize rfl
      simp only [ne_eq, hSize, not_false_eq_true, if_true,
        wp_pure, decide_eq_false hDiffer]

end KStringHead

end KDoth
