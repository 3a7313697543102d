import Mathlib.Combinatorics.SimpleGraph.Connectivity.Connected

/-!
# Graphs that grow node by node

A graph on the first numbers, given by a list of pairs in either order. It is
connected if each number but the first has a link to a smaller one: then every
number has a walk down to the first.
-/

namespace OldRadio.Library

/-- The graph of some links between the first `n` numbers. -/
def linkGraph (n : Nat) (links : List (Nat × Nat)) : SimpleGraph (Fin n) :=
  SimpleGraph.fromRel fun i j => ((i : Nat), (j : Nat)) ∈ links

theorem linkGraph_adj_of_lt {n : Nat} {links : List (Nat × Nat)} {i j : Fin n} (hlt : j < i)
    (h : ((i : Nat), (j : Nat)) ∈ links) : (linkGraph n links).Adj i j :=
  (SimpleGraph.fromRel_adj _ _ _).mpr ⟨hlt.ne', Or.inl h⟩

/-- A graph is connected if each number but the first has a link to a smaller one. -/
theorem connected_linkGraph {n : Nat} {links : List (Nat × Nat)} (hpos : 0 < n)
    (h : ∀ i, 0 < i → i < n → ∃ j < i, (i, j) ∈ links) : (linkGraph n links).Connected := by
  have hdown : ∀ i (hi : i < n), (linkGraph n links).Reachable ⟨i, hi⟩ ⟨0, hpos⟩ := by
    intro i
    induction i using Nat.strongRecOn with
    | ind i ih =>
      intro hi
      rcases Nat.eq_zero_or_pos i with rfl | hi0
      · exact SimpleGraph.Reachable.refl _
      · obtain ⟨j, hji, hlink⟩ := h i hi0 hi
        have hstep : (linkGraph n links).Adj ⟨i, hi⟩ ⟨j, hji.trans hi⟩ :=
          linkGraph_adj_of_lt hji hlink
        exact hstep.reachable.trans (ih j hji (hji.trans hi))
  have : Nonempty (Fin n) := ⟨⟨0, hpos⟩⟩
  exact SimpleGraph.Connected.mk fun i j => (hdown i i.isLt).trans (hdown j j.isLt).symm

end OldRadio.Library
