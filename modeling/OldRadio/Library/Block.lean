import Mathlib.Logic.Function.Basic

/-!
# Allocated arrays

A `malloc`ed array of `size` cells. Access outside it, and reading a cell that
was never written, have no result. Reallocating keeps the cells common to both
sizes.
-/

namespace OldRadio.Library

/-- An allocated array; a cell without a value was never written. -/
structure Block (α : Type*) where
  /-- Number of cells allocated. -/
  size : Nat
  /-- The value of each cell. -/
  cells : Nat → Option α

namespace Block

variable {α : Type*}

/-- A fresh array. -/
def alloc (size : Nat) : Block α := { size, cells := fun _ => none }

/-- The value at `i`, if `i` is inside and was written. -/
def read (b : Block α) (i : Nat) : Option α := if i < b.size then b.cells i else none

/-- The array with `x` at `i`. -/
def store (b : Block α) (i : Nat) (x : α) : Block α :=
  { b with cells := Function.update b.cells i (some x) }

/-- The array with `x` at `i`, if `i` is inside. -/
def write (b : Block α) (i : Nat) (x : α) : Option (Block α) :=
  if i < b.size then some (b.store i x) else none

/-- The array reallocated to another size. -/
def realloc (b : Block α) (size : Nat) : Block α :=
  { size, cells := fun i => if i < min b.size size then b.cells i else none }

@[simp] theorem store_size (b : Block α) (i : Nat) (x : α) : (b.store i x).size = b.size := rfl

@[simp] theorem store_cells_self (b : Block α) (i : Nat) (x : α) :
    (b.store i x).cells i = some x := Function.update_self ..

theorem store_cells_of_ne (b : Block α) {i j : Nat} (x : α) (h : j ≠ i) :
    (b.store i x).cells j = b.cells j := Function.update_of_ne h ..

theorem read_eq_some {b : Block α} {i : Nat} {x : α} (hi : i < b.size) (hx : b.cells i = some x) :
    b.read i = some x := by
  rw [read, if_pos hi, hx]

theorem write_eq_some {b : Block α} {i : Nat} (x : α) (hi : i < b.size) :
    b.write i x = some (b.store i x) := by
  rw [write, if_pos hi]

/-- Reallocation keeps every cell inside both sizes. -/
theorem realloc_cells {b : Block α} {size i : Nat} (hb : i < b.size) (hs : i < size) :
    (b.realloc size).cells i = b.cells i := by
  rw [realloc]
  exact if_pos (by omega)

end Block

end OldRadio.Library
