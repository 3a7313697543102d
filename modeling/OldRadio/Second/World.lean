import OldRadio.Library.Program
import OldRadio.Second.Packet

/-!
# What the node code runs in

Everything outside a node that its code touches: the outcomes of `rand`, the
allocated packets, `Loc_dims`, the contents of uninitialised memory, and the
state of the front end behind `Node_callback`. The simulator and the serial
program are two front ends of the same node code.
-/

namespace OldRadio.Second

open Library

/-- One more than `RAND_MAX`. -/
abbrev randRange : Nat := 2147483648

/-- Outcomes of `rand` given by a list, and zeros after them. -/
def tapeOf (outcomes : List Nat) (k : Nat) : Fin randRange :=
  ⟨outcomes.getD k 0 % randRange, Nat.mod_lt _ (by decide)⟩

/-- The surroundings of the node code, with the state `Front` of a front end. -/
structure World (Front : Type) where
  /-- What successive calls of `rand` return. -/
  tape : Nat → Fin randRange
  /-- Number of calls of `rand` made. -/
  drawn : Nat
  /-- Every packet allocated; a pointer to one is its position. -/
  heap : List Packet
  /-- `Loc_dims`. -/
  dims : Nat
  /-- Bytes found in uninitialised memory after a number of allocations. -/
  uninit : Nat → List UInt8
  /-- The front end. -/
  front : Front

/-- Node code: it reads and changes its surroundings, and may stop. -/
abbrev Node.M (Front : Type) (α : Type) : Type := StateT (World Front) (Except Abort) α

open Node (M)

variable {Front α : Type}

namespace World

/-- The world after `n` more calls of `rand`. -/
def skip (w : World Front) (n : Nat) : World Front := { w with drawn := w.drawn + n }

/-- The world with another packet. -/
def push (w : World Front) (p : Packet) : World Front := { w with heap := w.heap ++ [p] }

/-- The world with the packet at `ptr` replaced. -/
def poke (w : World Front) (ptr : Nat) (p : Packet) : World Front :=
  { w with heap := w.heap.set ptr p }

/-- The world with another state of the front end. -/
def setFront (w : World Front) (front : Front) : World Front := { w with front }

/-- The world with the front end replaced by what a function makes of it. -/
def mapFront {Front' : Type} (f : Front → Front') (w : World Front) : World Front' :=
  { tape := w.tape, drawn := w.drawn, heap := w.heap, dims := w.dims, uninit := w.uninit
    front := f w.front }

/-- The outcome of the `k`-th call of `rand` from now. -/
def rand (w : World Front) (k : Nat) : Nat := (w.tape (w.drawn + k)).val

@[simp] theorem skip_tape (w : World Front) (n : Nat) : (w.skip n).tape = w.tape := rfl
@[simp] theorem skip_drawn (w : World Front) (n : Nat) : (w.skip n).drawn = w.drawn + n := rfl
@[simp] theorem skip_dims (w : World Front) (n : Nat) : (w.skip n).dims = w.dims := rfl
@[simp] theorem skip_front (w : World Front) (n : Nat) : (w.skip n).front = w.front := rfl
@[simp] theorem skip_zero (w : World Front) : w.skip 0 = w := rfl

@[simp] theorem skip_skip (w : World Front) (m n : Nat) : (w.skip m).skip n = w.skip (m + n) := by
  simp only [skip, Nat.add_assoc]

@[simp] theorem skip_rand (w : World Front) (n k : Nat) : (w.skip n).rand k = w.rand (n + k) := by
  simp only [rand, skip_tape, skip_drawn, Nat.add_assoc]

@[simp] theorem push_heap (w : World Front) (p : Packet) :
    (w.push p).heap[w.heap.length]? = some p := by
  simp [push]

/-- Replacing the packet just added. -/
@[simp] theorem push_poke (w : World Front) (p p' : Packet) :
    (w.push p).poke w.heap.length p' = w.push p' := by
  simp [push, poke]

/-- Replacing a packet by itself. -/
theorem poke_self {w : World Front} {ptr : Nat} {p : Packet} (h : w.heap[ptr]? = some p) :
    w.poke ptr p = w := by
  obtain ⟨hlt, rfl⟩ := List.getElem?_eq_some_iff.mp h
  rw [poke, List.set_getElem_self]

@[simp] theorem setFront_heap (w : World Front) (front : Front) :
    (w.setFront front).heap = w.heap := rfl

@[simp] theorem setFront_front (w : World Front) (front : Front) :
    (w.setFront front).front = front := rfl

@[simp] theorem push_front (w : World Front) (p : Packet) : (w.push p).front = w.front := rfl

@[simp] theorem push_setFront (w : World Front) (p : Packet) (front : Front) :
    (w.push p).setFront front = (w.setFront front).push p := rfl

@[simp] theorem setFront_rand (w : World Front) (front : Front) (k : Nat) :
    (w.setFront front).rand k = w.rand k := rfl

theorem rand_lt (w : World Front) (k : Nat) : w.rand k < randRange := (w.tape _).isLt

end World

/-- `rand`. -/
def rand : M Front Nat := fun w => .ok (w.rand 0, w.skip 1)

@[simp] theorem wp_rand {good : Nat → World Front → Prop} {bad : Abort → Prop} {w : World Front} :
    Wp rand good bad w ↔ good (w.rand 0) (w.skip 1) := Iff.rfl

/-! ## Packets behind pointers -/

/-- `packet_new`, with a pointer to the packet as its result. -/
def packetAlloc (data : List UInt8) : M Front Nat := fun w =>
  match packetNew data with
  | .ok p => .ok (w.heap.length, w.push p)
  | .error e => .error e

/-- The packet that a pointer points to, if it is still held. -/
def packetRead (ptr : Nat) : M Front Packet := fun w =>
  match w.heap[ptr]? with
  | some p => if p.refcount = 0 then .error .packetFreed else .ok (p, w)
  | none => .error .packetFreed

/-- A packet that exists, behind a pointer. -/
def packetHold (packet : Packet) : M Front Nat := fun w => .ok (w.heap.length, w.push packet)

/-- `packet_clone`. -/
def packetClone (ptr : Nat) : M Front Unit := do
  let p ← packetRead ptr
  modify fun w => w.poke ptr { p with refcount := p.refcount + 1 }

/-- `packet_free`. -/
def packetFree (ptr : Nat) : M Front Unit := do
  let p ← packetRead ptr
  modify fun w => w.poke ptr { p with refcount := p.refcount - 1 }

@[simp] theorem wp_packetAlloc {good : Nat → World Front → Prop} {bad : Abort → Prop}
    {w : World Front} {data : List UInt8} (h : data ≠ []) :
    Wp (packetAlloc data) good bad w ↔
      good w.heap.length (w.push { refcount := 1, data }) := by
  rw [Wp, packetAlloc, packetNew_of_ne_nil h]

@[simp] theorem wp_packetHold {good : Nat → World Front → Prop} {bad : Abort → Prop}
    {w : World Front} {packet : Packet} :
    Wp (packetHold packet) good bad w ↔ good w.heap.length (w.push packet) := Iff.rfl

/-- Reading a packet stops if it is held no more. -/
theorem wp_packetRead_iff {good : Packet → World Front → Prop} {bad : Abort → Prop}
    {w : World Front} {ptr : Nat} {p : Packet} (hp : w.heap[ptr]? = some p) :
    Wp (packetRead ptr) good bad w ↔
      (p.refcount = 0 → bad .packetFreed) ∧ (p.refcount ≠ 0 → good p w) := by
  rw [Wp, packetRead, hp]
  by_cases hr : p.refcount = 0
  · simp [hr]
  · simp [hr]

/-- Freeing a packet takes one holder away. -/
theorem wp_packetFree_iff {good : Unit → World Front → Prop} {bad : Abort → Prop}
    {w : World Front} {ptr : Nat} {p : Packet} (hp : w.heap[ptr]? = some p) :
    Wp (packetFree ptr) good bad w ↔ (p.refcount = 0 → bad .packetFreed) ∧
      (p.refcount ≠ 0 → good () (w.poke ptr { p with refcount := p.refcount - 1 })) := by
  rw [packetFree, wp_bind, wp_packetRead_iff hp, wp_modify]

/-- Freeing the packet just added, which others hold. -/
theorem wp_packetFree_push {good : Unit → World Front → Prop} {bad : Abort → Prop}
    (w : World Front) (data : List UInt8) (n : Nat) :
    Wp (packetFree w.heap.length) good bad (w.push { refcount := n + 1, data }) ↔
      good () (w.push { refcount := n, data }) := by
  rw [wp_packetFree_iff (w.push_heap _)]
  simp

/-- Reading a packet gives the one that is held, or stops. -/
theorem wp_packetRead {good : Packet → World Front → Prop} {bad : Abort → Prop} {w : World Front}
    {ptr : Nat} (hbad : bad .packetFreed)
    (h : ∀ p, w.heap[ptr]? = some p → good p w) : Wp (packetRead ptr) good bad w := by
  cases hp : w.heap[ptr]? with
  | none =>
    rw [Wp, packetRead, hp]
    exact hbad
  | some p => exact (wp_packetRead_iff hp).mpr ⟨fun _ => hbad, fun _ => h p hp⟩

end OldRadio.Second
