import Mathlib.Logic.Relation
import Mathlib.Data.List.Basic

/-!
# Linked lists

Cells at addresses, each with a value and the address of the next cell or none.
A list lies in them from an address on when its cells follow one another and the
last has no next. What does not touch the cells of a list keeps it, and a cell
behind the last one makes it longer by one.
-/

namespace OldRadio.Library

variable {A V : Type*}

/-- From `p` on, the cells of a list follow one another, and the last has no next. -/
def Linked (cell : A → V → Option A → Prop) : Option A → List (A × V) → Prop
  | p, [] => p = none
  | p, (a, v) :: l => p = some a ∧ ∃ next, cell a v next ∧ Linked cell next l

/-- The cell at `b` is the next of the cell at `a`. -/
def NextCell (cell : A → V → Option A → Prop) (a b : A) : Prop := ∃ v, cell a v (some b)

section Linked

variable {cell cell' : A → V → Option A → Prop} {p : Option A} {l : List (A × V)} {a t : A}
  {v w : V}

theorem Linked.eq_head (h : Linked cell p l) : p = (l.map Prod.fst).head? := by
  cases l with
  | nil => exact h
  | cons e l => exact h.1

theorem Linked.eq_none_iff (h : Linked cell p l) : p = none ↔ l = [] := by
  rw [h.eq_head, List.head?_eq_none_iff, List.map_eq_nil_iff]

/-- The cells behind the first ones are linked, too. -/
theorem Linked.drop (h : Linked cell p l) (n : ℕ) :
    Linked cell ((l.drop n).map Prod.fst).head? (l.drop n) := by
  induction n generalizing p l with
  | zero => exact h.eq_head ▸ h
  | succ n ih =>
    cases l with
    | nil => rfl
    | cons e l =>
      obtain ⟨-, next, -, hl⟩ := h
      exact ih hl

theorem Linked.cell_of_mem (h : Linked cell p l) (hmem : (a, v) ∈ l) : ∃ next, cell a v next := by
  induction l generalizing p with
  | nil => cases hmem
  | cons e l ih =>
    obtain ⟨-, next, he, hl⟩ := h
    rcases List.mem_cons.mp hmem with rfl | hmem
    · exact ⟨next, he⟩
    · exact ih hl hmem

/-- Cells that are kept keep the list. -/
theorem Linked.imp (h : Linked cell p l)
    (hcell : ∀ a v next, (a, v) ∈ l → cell a v next → cell' a v next) : Linked cell' p l := by
  induction l generalizing p with
  | nil => exact h
  | cons e l ih =>
    obtain ⟨hp, next, he, hl⟩ := h
    exact ⟨hp, next, hcell e.1 e.2 next List.mem_cons_self he,
      ih hl fun a v next hmem => hcell a v next (List.mem_cons_of_mem e hmem)⟩

theorem Linked.last (h : Linked cell p (l ++ [(t, v)])) : cell t v none := by
  induction l generalizing p with
  | nil =>
    obtain ⟨-, next, ht, hnext⟩ := h
    obtain rfl : next = none := hnext
    exact ht
  | cons e l ih =>
    obtain ⟨-, next, -, hl⟩ := h
    exact ih hl

/-- A cell behind the last one, if the others are kept. -/
theorem Linked.concat (h : Linked cell p (l ++ [(t, v)]))
    (hcell : ∀ a v next, (a, v) ∈ l → cell a v next → cell' a v next)
    (ht : cell' t v (some a)) (ha : cell' a w none) :
    Linked cell' p (l ++ [(t, v)] ++ [(a, w)]) := by
  induction l generalizing p with
  | nil => exact ⟨h.1, some a, ht, rfl, none, ha, rfl⟩
  | cons e l ih =>
    obtain ⟨hp, next, he, hl⟩ := h
    exact ⟨hp, next, hcell e.1 e.2 next List.mem_cons_self he,
      ih hl fun a v next hmem => hcell a v next (List.mem_cons_of_mem e hmem)⟩

/-- The last cell is reached from the first. -/
theorem Linked.reaches (h : Linked cell p (l ++ [(t, v)])) :
    ∃ first, p = some first ∧ Relation.ReflTransGen (NextCell cell) first t := by
  induction l generalizing p with
  | nil => exact ⟨t, h.1, .refl⟩
  | cons e l ih =>
    obtain ⟨hp, next, he, hl⟩ := h
    obtain ⟨second, rfl, hreach⟩ := ih hl
    exact ⟨e.1, hp, .head ⟨e.2, he⟩ hreach⟩

end Linked

end OldRadio.Library
