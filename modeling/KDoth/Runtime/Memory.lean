import KDoth.Runtime.Process
import KDoth.Foundations.Lockstep

/-
  The process with a memory of cells at addresses, for the
  parts of the library that work on their own blocks. An
  access to a cell that was freed or never allocated is a
  fault.

  Key definitions include:
    * `Fault`
    * `Memory`
    * `MemoryCall`
    * `MemoryCall.lift`
    * `MemoryCall.load`
    * `MemoryCall.store`
    * `MemoryCall.place`
    * `MemoryCall.free`
    * `MemoryCall.Simulates`
    * `MemoryCall.machine`

  Key theorems include:
    * `MemoryCall.wp_lift`
    * `MemoryCall.wp_load`
    * `MemoryCall.step_of_wp`
    * `MemoryCall.step_of_occupied`
-/

------------------------------------------------------------
-- Memory
------------------------------------------------------------

namespace KDoth

/- Why a call on memory does not return. -/
inductive Fault where
  /- What the call does besides stops. -/
  | stop (reason : Stop)
  /- The cell is not allocated. -/
  | dangling
  /- The allocator returned a cell that is in use. -/
  | occupied
  /- The access is not inside the block. -/
  | outOfBounds
  /- What is read was never written. -/
  | uninitialized
deriving DecidableEq, Repr

/- The process with the cells at their addresses. -/
structure Memory (N : Type) where
  process : Process
  cell : Nat → Option N

/- A call on memory. -/
abbrev MemoryCall (N β : Type) :=
  Command Fault (Memory N) β

namespace Memory

variable {N : Type}

/- Write or free a cell. -/
def setCell
    (s : Memory N)
    (a : Nat)
    (n : Option N) :
    Memory N :=
  { s with cell := Function.update s.cell a n }

def setProcess
    (s : Memory N)
    (p : Process) :
    Memory N :=
  { s with process := p }

end Memory

namespace MemoryCall

variable {N β : Type}

/- A call of the library that does not touch the cells. -/
def lift (c : Call β) : MemoryCall N β := fun s =>
  match c s.process with
  | .ok b p => .ok b (s.setProcess p)
  | .error e p => .error (.stop e) (s.setProcess p)

/- One more allocation request. -/
def requested (site : AllocationSite) : MemoryCall N Unit :=
  modify fun s => s.setProcess (s.process.requested site)

/- Read a cell. -/
def load (a : Nat) : MemoryCall N N := do
  let s ← get
  match s.cell a with
  | none => throw .dangling
  | some n => pure n

/- Write a cell that is allocated. -/
def store
    (a : Nat)
    (n : N) :
    MemoryCall N Unit := do
  let _ ← load (N := N) a
  modify fun s => s.setCell a (some n)

/- A cell is allocated where none is. -/
def place
    (a : Nat)
    (n : N) :
    MemoryCall N Unit := do
  let s ← get
  match s.cell a with
  | some _ => throw .occupied
  | none => set (s.setCell a (some n))

/- `free` -/
def free (a : Nat) : MemoryCall N Unit := do
  let _ ← load (N := N) a
  modify fun s => s.setCell a none

end MemoryCall

end KDoth

------------------------------------------------------------
-- Rules For Memory
------------------------------------------------------------

namespace KDoth

namespace Memory

variable {N : Type} {s : Memory N} {a b : Nat}

@[simp] theorem setCell_self
    {n : Option N} :
    (s.setCell a n).cell a = n := by
  simp [setCell]

theorem setCell_of_ne
    {n : Option N}
    (hNe : b ≠ a) :
    (s.setCell a n).cell b = s.cell b := by
  simp [setCell, hNe]

theorem setCell_cell
    {n : Option N} :
    (s.setCell a n).cell = Function.update s.cell a n := rfl

@[simp] theorem setCell_process
    {n : Option N} :
    (s.setCell a n).process = s.process := rfl

@[simp] theorem setProcess_cell
    {p : Process} :
    (s.setProcess p).cell = s.cell := rfl

@[simp] theorem setProcess_process
    {p : Process} :
    (s.setProcess p).process = p := rfl

end Memory

namespace MemoryCall

open Command

variable {N β : Type} {s : Memory N} {a : Nat}
variable {E : Fault → Memory N → Prop}

/- A call of the library keeps its own rules. -/
theorem wp_lift
    {c : Call β}
    {Q : β → Memory N → Prop} :
    wp (lift c) Q E s ↔
      wp c (fun b p => Q b (s.setProcess p))
        (fun e p => E (.stop e) (s.setProcess p))
        s.process := by
  unfold wp lift
  cases c s.process with
  | ok b p => rfl
  | error e p => rfl

@[simp] theorem wp_requested
    {site : AllocationSite}
    {Q : Unit → Memory N → Prop} :
    wp (requested site) Q E s ↔
      Q () (s.setProcess (s.process.requested site)) :=
  Iff.rfl

theorem wp_load
    {n : N}
    {Q : N → Memory N → Prop}
    (hLive : s.cell a = some n) :
    wp (load a) Q E s ↔ Q n s := by
  simp only [load, wp_bind, wp_get, hLive]
  rfl

theorem wp_store
    {old n : N}
    {Q : Unit → Memory N → Prop}
    (hLive : s.cell a = some old) :
    wp (store a n) Q E s ↔ Q () (s.setCell a (some n)) := by
  simp only [store, wp_bind, wp_load hLive, wp_modify]

theorem wp_place
    {n : N}
    {Q : Unit → Memory N → Prop}
    (hFree : s.cell a = none) :
    wp (place a n) Q E s ↔ Q () (s.setCell a (some n)) := by
  simp only [place, wp_bind, wp_get, hFree, wp_set]

theorem wp_place_occupied
    {n old : N}
    {Q : Unit → Memory N → Prop}
    (hLive : s.cell a = some old) :
    wp (place a n) Q E s ↔ E .occupied s := by
  simp only [place, wp_bind, wp_get, hLive, wp_throw]

theorem wp_free
    {old : N}
    {Q : Unit → Memory N → Prop}
    (hLive : s.cell a = some old) :
    wp (free a) Q E s ↔ Q () (s.setCell a none) := by
  simp only [free, wp_bind, wp_load hLive, wp_modify]

end MemoryCall

end KDoth

------------------------------------------------------------
-- Simulation
------------------------------------------------------------

namespace KDoth

namespace MemoryCall

open Command

variable {σ τ β γ N : Type}
variable {Represents : Memory N → σ → τ → Prop}

/-
  A call on an object in memory ensures whatever a call on
  its value ensures, and leaves an object that represents the
  value that the other leaves.
-/
def Simulates
    (Represents : Memory N → σ → τ → Prop)
    (c : MemoryCall N (σ × β))
    (v : Call (τ × β))
    (s : Memory N) : Prop :=
  ∀ Q E,
    wp v
        (fun r p =>
          ∀ object s',
            s'.process = p →
              Represents s' object r.1 → Q (object, r.2) s')
        (fun e p => ∀ s', s'.process = p → E (.stop e) s')
        s.process →
      wp c Q E s

/- A simulated call may be followed by a change of its result. -/
theorem Simulates.map
    {c : MemoryCall N (σ × β)}
    {v : Call (τ × β)}
    {s : Memory N}
    (hSim : Simulates Represents c v s)
    (f : β → γ) :
    Simulates Represents
      (do let (object, b) ← c; pure (object, f b))
      (do let (value, b) ← v; pure (value, f b)) s := by
  intro Q E hValue
  rw [wp_bind] at hValue ⊢
  apply hSim
  exact hValue

end MemoryCall

end KDoth

------------------------------------------------------------
-- Calls As Steps
------------------------------------------------------------

namespace KDoth

namespace MemoryCall

open Command

variable {σ Step V N : Type}
variable {call : σ → Step → MemoryCall N (σ × V)}
variable {r : σ × Memory N} {c : Step}

/-
  The calls on an object in memory as a machine. A call that
  faults returns its fault. The allocator never answers with
  a cell that is in use, so a call for which it would is no
  step.
-/
def machine
    (call : σ → Step → MemoryCall N (σ × V)) :
    Machine (σ × Memory N) Step (Except Fault V) where
  step r c :=
    match call r.1 c r.2 with
    | .ok q s => some (.ok q.2, (q.1, s))
    | .error .occupied _ => none
    | .error fault s => some (.error fault, (r.1, s))

/- A call that returns is a step that returns its value. -/
theorem step_of_wp
    {Q : σ × V → Memory N → Prop}
    (hReturns : wp (call r.1 c) Q (fun _ _ => False) r.2) :
    ∃ q s,
      (machine call).step r c = some (.ok q.2, (q.1, s)) ∧
        Q q s := by
  rcases returns_iff_wp.mpr hReturns with ⟨q, s, hCall, hPost⟩
  refine ⟨q, s, ?_, hPost⟩
  simp only [machine, hCall]

/- A call that finds the cell in use is no step. -/
theorem step_of_occupied
    (hOccupied :
      wp (call r.1 c) (fun _ _ => False)
        (fun e _ => e = .occupied) r.2) :
    (machine call).step r c = none := by
  unfold wp at hOccupied
  simp only [machine]
  split at hOccupied
  next => exact hOccupied.elim
  next fault s hCall => rw [hCall, hOccupied]

end MemoryCall

end KDoth
