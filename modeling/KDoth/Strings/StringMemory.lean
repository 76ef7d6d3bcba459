import KDoth.Runtime.Memory
import Mathlib.Algebra.Group.Nat.Defs

/-
  The memory of strings: the objects of strings and the
  blocks of bytes they point to, with `malloc`, `realloc`,
  `free` and the copying of bytes.

  An access that does not lie inside its block is a fault,
  and so is a byte whose value is used before it was written.

  Key definitions include:
    * `ByteBlock`
    * `StringCell`
    * `AddressSource`
    * `StringCall.malloc`
    * `StringCall.realloc`
    * `StringCall.copyBytes`
    * `Unlucky`
    * `FreshAnswers`

  Key theorems include:
    * `StringCall.wp_malloc`
    * `StringCall.wp_realloc`
    * `StringCall.wp_copyBytes`
-/

------------------------------------------------------------
-- Cells
------------------------------------------------------------

namespace KDoth

/- `PTRDIFF_MAX`. No block has more bytes. -/
def ptrdiffMax : Nat := 2 ^ 63 - 1

/- A block of bytes. One that was never written is `none`. -/
structure ByteBlock where
  bytes : List (Option UInt8)
  small : bytes.length ≤ ptrdiffMax
deriving DecidableEq

/- `struct KString` with the count of its control block. -/
structure KStringHead where
  refCount : Nat
  size : Nat
  buffer : Option Nat
deriving DecidableEq, Repr

/- What is allocated at an address. -/
inductive StringCell where
  | object (string : KStringHead)
  | block (b : ByteBlock)
deriving DecidableEq

abbrev StringMemory := Memory StringCell

abbrev StringCall (β : Type) := MemoryCall StringCell β

/- The number of the next request. -/
abbrev Memory.nextRequest
    {N : Type}
    (s : Memory N) : Nat :=
  s.process.requests.length

/- Bytes of the caller. -/
structure ClientBytes where
  bytes : List UInt8
  small : bytes.length ≤ ptrdiffMax

/- A pointer to bytes that are to be copied. -/
inductive DataPointer where
  | null
  | client (data : ClientBytes)
  /- So many bytes into the block at an address. -/
  | buffer (p : Option Nat) (start : Nat)

/-
  What the allocator answers to each request: an address, or
  NULL.
-/
abbrev AddressSource := Nat → AllocationSite → Option Nat

namespace ByteBlock

/- A block none of whose bytes was written. -/
def undefined
    (size : Nat)
    (hSize : size ≤ ptrdiffMax) : ByteBlock where
  bytes := List.replicate size none
  small := by
    rw [List.length_replicate]
    exact hSize

/- The first bytes are kept, as many as there are in both. -/
def resized
    (b : ByteBlock)
    (size : Nat)
    (hSize : size ≤ ptrdiffMax) : ByteBlock where
  bytes :=
    b.bytes.take size ++
      List.replicate (size - b.bytes.length) none
  small := by
    rw [List.length_append, List.length_take,
      List.length_replicate]
    omega

/- Bytes are written from an offset on. -/
def write
    (b : ByteBlock)
    (offset : Nat)
    (data : List (Option UInt8))
    (hInside : offset + data.length ≤ b.bytes.length) :
    ByteBlock where
  bytes :=
    b.bytes.take offset ++ data ++
      b.bytes.drop (offset + data.length)
  small := by
    have hSmall := b.small
    rw [List.length_append, List.length_append,
      List.length_take, List.length_drop]
    omega

end ByteBlock

end KDoth

------------------------------------------------------------
-- Access
------------------------------------------------------------

namespace KDoth

namespace StringCall

open MemoryCall

/- Read the object of a string. -/
def loadObject (a : Nat) : StringCall KStringHead := do
  match ← load a with
  | .object string => pure string
  | .block _ => throw .dangling

/- Write the object of a string. -/
def storeObject
    (a : Nat)
    (string : KStringHead) :
    StringCall Unit := do
  let _ ← loadObject a
  store a (.object string)

/- Read a block through a pointer. -/
def loadBlock (p : Option Nat) : StringCall ByteBlock :=
  match p with
  | none => throw (.stop .nullDereference)
  | some a => do
      match ← load a with
      | .object _ => throw .dangling
      | .block b => pure b

/- Read so many bytes. -/
def fetch (data : DataPointer) (count : Nat) :
    StringCall (List (Option UInt8)) :=
  match data with
  | .null => throw (.stop .nullDereference)
  | .client data =>
      if count ≤ data.bytes.length then
        pure ((data.bytes.take count).map some)
      else throw .outOfBounds
  | .buffer p start => do
      let b ← loadBlock p
      if start + count ≤ b.bytes.length then
        pure ((b.bytes.drop start).take count)
      else throw .outOfBounds

/- Write bytes into a block from an offset on. -/
def write
    (p : Option Nat)
    (offset : Nat)
    (data : List (Option UInt8)) :
    StringCall Unit :=
  match p with
  | none => throw (.stop .nullDereference)
  | some a => do
      let b ← loadBlock (some a)
      if hInside : offset + data.length ≤ b.bytes.length then
        store a (.block (b.write offset data hInside))
      else throw .outOfBounds

/-
  `memcpy` and `memmove`, from an offset of the destination
  on. Copying nothing touches neither side.
-/
def copyBytes
    (destination : Option Nat)
    (offset : Nat)
    (source : DataPointer)
    (count : Nat) :
    StringCall Unit :=
  if count = 0 then pure ()
  else do
    let data ← fetch source count
    write destination offset data

/- The values of bytes that were all written. -/
def defined :
    List (Option UInt8) → StringCall (List UInt8)
| [] => pure []
| none :: _ => throw .uninitialized
| some byte :: rest => do
    let values ← defined rest
    pure (byte :: values)

end StringCall

end KDoth

------------------------------------------------------------
-- Allocation
------------------------------------------------------------

namespace KDoth

namespace StringCall

open MemoryCall

/- Make a request of the allocator. -/
def ask
    (source : AddressSource)
    (site : AllocationSite) :
    StringCall (Option Nat) := do
  let s ← get
  set (s.setProcess (s.process.requested site))
  pure (source s.process.requests.length site)

/- `KStringAlloc`: the object is zeroed. -/
def objectNew
    (source : AddressSource) :
    StringCall (Option Nat) := do
  match ← ask source (.objectNew .kString) with
  | none => pure none
  | some a =>
      place a
        (.object { refCount := 1, size := 0, buffer := none })
      pure (some a)

/-
  `malloc`. A request for more than `PTRDIFF_MAX` bytes is
  answered with NULL.
-/
def malloc
    (source : AddressSource)
    (site : AllocationSite)
    (size : Nat) :
    StringCall (Option Nat) := do
  match ← ask source site with
  | none => pure none
  | some a =>
      if hSize : size ≤ ptrdiffMax then
        place a (.block (.undefined size hSize))
        pure (some a)
      else
        pure none

/-
  `realloc`. The block may stay where it is. To ask for no
  bytes frees the block and returns NULL.
-/
def realloc
    (source : AddressSource)
    (site : AllocationSite)
    (p : Option Nat)
    (size : Nat) :
    StringCall (Option Nat) :=
  match p with
  | none => malloc source site size
  | some old => do
      let b ← loadBlock (some old)
      let answer ← ask source site
      if size = 0 then
        free old
        pure none
      else
        match answer with
        | none => pure none
        | some a =>
            if hSize : size ≤ ptrdiffMax then
              free old
              place a (.block (b.resized size hSize))
              pure (some a)
            else
              pure none

/- `free` accepts NULL. -/
def freeBlock (p : Option Nat) : StringCall Unit :=
  match p with
  | none => pure ()
  | some a => do
      let _ ← loadBlock (some a)
      free a

end StringCall

end KDoth

------------------------------------------------------------
-- Rules For Access
------------------------------------------------------------

namespace KDoth

/- The pointer is to so many bytes, which are these. -/
def DataPointer.Readable
    (cell : Nat → Option StringCell) :
    DataPointer → Nat → List (Option UInt8) → Prop
| .null, count, bytes => count = 0 ∧ bytes = []
| .client data, count, bytes =>
    count ≤ data.bytes.length ∧
      bytes = (data.bytes.take count).map some
| .buffer p start, count, bytes =>
    ∃ a b,
      p = some a ∧ cell a = some (.block b) ∧
        start + count ≤ b.bytes.length ∧
        bytes = (b.bytes.drop start).take count

theorem DataPointer.Readable.length
    {cell : Nat → Option StringCell}
    {data : DataPointer}
    {count : Nat}
    {bytes : List (Option UInt8)}
    (hReadable : data.Readable cell count bytes) :
    bytes.length = count := by
  cases data with
  | null =>
      rw [hReadable.1, hReadable.2]
      rfl
  | client data =>
      rw [hReadable.2, List.length_map, List.length_take]
      exact Nat.min_eq_left hReadable.1
  | buffer p start =>
      rcases hReadable with ⟨a, b, _, _, hInside, hBytes⟩
      rw [hBytes, List.length_take, List.length_drop]
      omega

/- No more bytes than there can be in a block. -/
theorem DataPointer.Readable.small
    {cell : Nat → Option StringCell}
    {data : DataPointer}
    {count : Nat}
    {bytes : List (Option UInt8)}
    (hReadable : data.Readable cell count bytes) :
    count ≤ ptrdiffMax := by
  cases data with
  | null =>
      rw [hReadable.1]
      exact Nat.zero_le _
  | client data => exact Nat.le_trans hReadable.1 data.small
  | buffer p start =>
      rcases hReadable with ⟨a, b, _, _, hInside, _⟩
      have hSmall := b.small
      omega

/- Everything that is allocated stays as it is. -/
def Extends (cell cell' : Nat → Option StringCell) : Prop :=
  ∀ a c, cell a = some c → cell' a = some c

/- What can be read can be read later. -/
theorem DataPointer.Readable.mono
    {cell cell' : Nat → Option StringCell}
    {data : DataPointer}
    {count : Nat}
    {bytes : List (Option UInt8)}
    (hReadable : data.Readable cell count bytes)
    (hExtends : Extends cell cell') :
    data.Readable cell' count bytes := by
  cases data with
  | null => exact hReadable
  | client data => exact hReadable
  | buffer p start =>
      rcases hReadable with ⟨a, b, hp, hLive, hRest⟩
      exact ⟨a, b, hp, hExtends _ _ hLive, hRest⟩

namespace StringCall

open Command MemoryCall

variable {β : Type} {s : StringMemory} {a count offset : Nat}
variable {E : Fault → StringMemory → Prop}

theorem wp_loadObject
    {string : KStringHead}
    {Q : KStringHead → StringMemory → Prop}
    (hLive : s.cell a = some (.object string)) :
    wp (loadObject a) Q E s ↔ Q string s := by
  simp only [loadObject, wp_bind, wp_load hLive]
  rfl

theorem wp_storeObject
    {old string : KStringHead}
    {Q : Unit → StringMemory → Prop}
    (hLive : s.cell a = some (.object old)) :
    wp (storeObject a string) Q E s ↔
      Q () (s.setCell a (some (.object string))) := by
  simp only [storeObject, wp_bind, wp_loadObject hLive,
    wp_store hLive]

theorem wp_loadBlock
    {b : ByteBlock}
    {Q : ByteBlock → StringMemory → Prop}
    (hLive : s.cell a = some (.block b)) :
    wp (loadBlock (some a)) Q E s ↔ Q b s := by
  simp only [loadBlock, wp_bind, wp_load hLive]
  rfl

theorem wp_fetch
    {source : DataPointer}
    {data : List (Option UInt8)}
    {Q : List (Option UInt8) → StringMemory → Prop}
    (hReadable : source.Readable s.cell count data)
    (hCount : count ≠ 0) :
    wp (fetch source count) Q E s ↔ Q data s := by
  cases source with
  | null => exact absurd hReadable.1 hCount
  | client bytes =>
      simp only [fetch, if_pos hReadable.1, wp_pure,
        hReadable.2]
  | buffer p start =>
      rcases hReadable with
        ⟨a, b, rfl, hLive, hInside, hBytes⟩
      simp only [fetch, wp_bind, wp_loadBlock hLive,
        if_pos hInside, wp_pure, hBytes]

theorem wp_write
    {b : ByteBlock}
    {data : List (Option UInt8)}
    {Q : Unit → StringMemory → Prop}
    (hLive : s.cell a = some (.block b))
    (hInside : offset + data.length ≤ b.bytes.length) :
    wp (write (some a) offset data) Q E s ↔
      Q ()
        (s.setCell a
          (some (.block (b.write offset data hInside)))) := by
  simp only [write, wp_bind, wp_loadBlock hLive,
    dif_pos hInside, wp_store hLive]

/- The bytes are copied into the block. -/
theorem wp_copyBytes
    {b : ByteBlock}
    {source : DataPointer}
    {data : List (Option UInt8)}
    {Q : Unit → StringMemory → Prop}
    (hReadable : source.Readable s.cell count data)
    (hLive : s.cell a = some (.block b))
    (hInside : offset + count ≤ b.bytes.length)
    (hPost :
      ∀ s' b',
        s'.process = s.process →
          s'.cell = Function.update s.cell a (some (.block b')) →
            b'.bytes =
              b.bytes.take offset ++ data ++
                b.bytes.drop (offset + count) →
              Q () s') :
    wp (copyBytes (some a) offset source count) Q E s := by
  have hLength := hReadable.length
  unfold copyBytes
  by_cases hZero : count = 0
  · rw [if_pos hZero]
    have hNil : data = [] := by
      rw [← List.length_eq_zero_iff, hLength, hZero]
    apply hPost s b rfl
    · rw [← hLive, Function.update_eq_self]
    · rw [hNil, hZero, List.append_nil, Nat.add_zero,
        List.take_append_drop]
  · subst hLength
    rw [if_neg hZero, wp_bind, wp_fetch hReadable hZero,
      wp_write hLive hInside]
    exact hPost _ _ rfl rfl rfl

/- Bytes that were all written have values. -/
theorem wp_defined
    {values : List UInt8}
    {Q : List UInt8 → StringMemory → Prop} :
    wp (defined (values.map some)) Q E s ↔ Q values s := by
  induction values generalizing Q with
  | nil => rfl
  | cons byte rest ih =>
      simp only [List.map_cons, defined, wp_bind, ih, wp_pure]

end StringCall

end KDoth

------------------------------------------------------------
-- Rules For Allocation
------------------------------------------------------------

namespace KDoth

/- Nothing is allocated. -/
def StringMemory.empty : StringMemory where
  process := Process.initial
  cell _ := none

/- The requests are answered with the numbers in order. -/
def AddressSource.counting (first : Nat) : AddressSource :=
  fun n _ => some (first + n)

theorem nextRequest_of_requested
    {s s' : StringMemory}
    {site : AllocationSite}
    (hProcess : s'.process = s.process.requested site) :
    s'.nextRequest = s.nextRequest + 1 := by
  unfold Memory.nextRequest
  rw [hProcess, Process.requested_requests,
    List.length_append]
  rfl

/- Some request is refused. -/
def AddressSource.Refuses (source : AddressSource) : Prop :=
  ∃ n site, source n site = none

theorem AddressSource.counting_grants
    (first : Nat) :
    ¬ (counting first).Refuses := by
  rintro ⟨n, site, hAnswer⟩
  cases hAnswer

/-
  How a call may fail that makes no wrong access: the
  allocator answers with an address that is in use, which no
  allocator does, or the call stops, which it does only if a
  request is refused.
-/
def Unlucky
    (source : AddressSource)
    (e : Fault)
    (_ : StringMemory) : Prop :=
  e = .occupied ∨ source.Refuses ∧ ∃ reason, e = .stop reason

theorem Unlucky.occupied
    {source : AddressSource}
    (s : StringMemory) :
    Unlucky source .occupied s :=
  .inl rfl

/-
  The allocator answers a call with no address that is in
  use.
-/
def FreshAnswers
    {β : Type}
    (c : StringCall β)
    (s : StringMemory) : Prop :=
  Command.wp c (fun _ _ => True) (fun e _ => e ≠ .occupied) s

/- Without a request that is refused, a call returns. -/
theorem FreshAnswers.returns
    {β : Type}
    {c : StringCall β}
    {s : StringMemory}
    {source : AddressSource}
    {Q : β → StringMemory → Prop}
    (hFresh : FreshAnswers c s)
    (hGranted : ¬ source.Refuses)
    (hWp : Command.wp c Q (Unlucky source) s) :
    Command.Returns c s Q := by
  rw [Command.returns_iff_wp]
  apply Command.wp_mono (Command.wp_and hFresh hWp)
  · intro b s' hBoth
    exact hBoth.2
  · intro e s' hBoth
    rcases hBoth with ⟨hFree, hOccupied | ⟨hRefuses, _⟩⟩
    · exact hFree hOccupied
    · exact hGranted hRefuses

namespace StringCall

open Command MemoryCall

variable {s : StringMemory} {a p size : Nat}
variable {source : AddressSource} {site : AllocationSite}

theorem wp_place_string
    {cell : StringCell}
    {Q : Unit → StringMemory → Prop}
    {E : Fault → StringMemory → Prop}
    (hOccupied : ∀ s', E .occupied s')
    (hPost :
      s.cell a = none → Q () (s.setCell a (some cell))) :
    wp (place a cell) Q E s := by
  cases hCell : s.cell a with
  | none =>
      rw [wp_place hCell]
      exact hPost hCell
  | some other =>
      rw [wp_place_occupied hCell]
      exact hOccupied s

/- A new object is granted or NULL. -/
theorem wp_objectNew_string
    {Q : Option Nat → StringMemory → Prop}
    {E : Fault → StringMemory → Prop}
    (hOccupied : ∀ s', E .occupied s')
    (hNull :
      ∀ s',
        source s.process.requests.length
            (.objectNew .kString) = none →
          s'.process =
              s.process.requested (.objectNew .kString) →
            s'.cell = s.cell → Q none s')
    (hMade :
      ∀ a s',
        source s.process.requests.length
            (.objectNew .kString) = some a →
          s.cell a = none →
            s'.process =
                s.process.requested (.objectNew .kString) →
              s'.cell =
                  Function.update s.cell a
                    (some (.object ⟨1, 0, none⟩)) →
                Q (some a) s') :
    wp (objectNew source) Q E s := by
  simp only [objectNew, ask, wp_bind, wp_get, wp_set, wp_pure]
  cases hAnswer :
      source s.process.requests.length
        (.objectNew .kString) with
  | none => exact hNull _ hAnswer rfl rfl
  | some a =>
      simp only [wp_bind]
      apply wp_place_string hOccupied
      intro hFree
      exact hMade a _ hAnswer hFree rfl rfl

/- A new block is granted or NULL. -/
theorem wp_malloc
    {Q : Option Nat → StringMemory → Prop}
    {E : Fault → StringMemory → Prop}
    (hOccupied : ∀ s', E .occupied s')
    (hNull :
      ∀ s',
        (source s.process.requests.length site = none ∨
            ptrdiffMax < size) →
          s'.process = s.process.requested site →
            s'.cell = s.cell → Q none s')
    (hMade :
      ∀ a s' b,
        source s.process.requests.length site = some a →
          s.cell a = none →
            s'.process = s.process.requested site →
              s'.cell =
                  Function.update s.cell a (some (.block b)) →
                b.bytes = List.replicate size none →
                  Q (some a) s') :
    wp (malloc source site size) Q E s := by
  simp only [malloc, ask, wp_bind, wp_get, wp_set, wp_pure]
  cases hAnswer : source s.process.requests.length site with
  | none => exact hNull _ (.inl hAnswer) rfl rfl
  | some a =>
      by_cases hSize : size ≤ ptrdiffMax
      · simp only [dif_pos hSize, wp_bind]
        apply wp_place_string hOccupied
        intro hFree
        exact hMade a _ _ hAnswer hFree rfl rfl rfl
      · simp only [dif_neg hSize]
        exact hNull _ (.inr (by omega)) rfl rfl

/-
  A request for bytes fails and leaves the blocks as they
  are, or replaces the block by one of the new size.
-/
theorem wp_realloc
    {b : ByteBlock}
    {Q : Option Nat → StringMemory → Prop}
    {E : Fault → StringMemory → Prop}
    (hOccupied : ∀ s', E .occupied s')
    (hLive : s.cell p = some (.block b))
    (hSize : size ≠ 0)
    (hNull :
      ∀ s',
        s'.process = s.process.requested site →
          s'.cell = s.cell → Q none s')
    (hMoves :
      ∀ a s' b',
        Function.update s.cell p none a = none →
          s'.process = s.process.requested site →
            s'.cell =
                Function.update
                  (Function.update s.cell p none) a
                  (some (.block b')) →
              b'.bytes =
                  b.bytes.take size ++
                    List.replicate (size - b.bytes.length)
                      none →
                Q (some a) s') :
    wp (realloc source site (some p) size) Q E s := by
  simp only [realloc, ask, wp_bind, wp_loadBlock hLive, wp_get,
    wp_set, wp_pure, if_neg hSize]
  cases source s.process.requests.length site with
  | none => exact hNull _ rfl rfl
  | some a =>
      by_cases hSmall : size ≤ ptrdiffMax
      · simp only [dif_pos hSmall, wp_bind]
        have hStill :
            (s.setProcess (s.process.requested site)).cell p =
              some (.block b) := hLive
        rw [wp_free hStill]
        apply wp_place_string hOccupied
        intro hFree
        exact hMoves a _ _ hFree rfl rfl rfl
      · simp only [dif_neg hSmall]
        exact hNull _ rfl rfl

theorem wp_freeBlock
    {b : ByteBlock}
    {Q : Unit → StringMemory → Prop}
    {E : Fault → StringMemory → Prop}
    (hLive : s.cell p = some (.block b)) :
    wp (freeBlock (some p)) Q E s ↔ Q () (s.setCell p none) := by
  simp only [freeBlock, wp_bind, wp_loadBlock hLive,
    wp_free hLive]

end StringCall

end KDoth
