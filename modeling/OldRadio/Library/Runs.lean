import Mathlib.Data.List.Infix

/-!
# Bounded runs

A list in which some element never comes more than a given number of times in a
row. Lists so bounded may be joined where the element does not stand on both
sides of the seam, so pieces that all begin, or all end, with another element
may be joined in any number.
-/

namespace OldRadio.Library

variable {α β : Type*}

/-- No more than `n` copies of `b` stand in a row. -/
def RunsAtMost (b : α) (n : Nat) (l : List α) : Prop := ¬ List.replicate (n + 1) b <:+: l

instance [DecidableEq α] (b : α) (n : Nat) (l : List α) : Decidable (RunsAtMost b n l) :=
  inferInstanceAs (Decidable (¬ List.replicate (n + 1) b <:+: l))

theorem runsAtMost_nil (b : α) (n : Nat) : RunsAtMost b n [] := by
  simp [RunsAtMost]

/-- A run across a seam has its element on both sides. -/
theorem RunsAtMost.append {b : α} {n : Nat} {l₁ l₂ : List α} (h₁ : RunsAtMost b n l₁)
    (h₂ : RunsAtMost b n l₂) (hseam : l₁.getLast? ≠ some b ∨ l₂.head? ≠ some b) :
    RunsAtMost b n (l₁ ++ l₂) := by
  rintro ⟨before, after, heq⟩
  rcases List.append_eq_append_iff.mp heq with ⟨rest, hl₁, -⟩ | ⟨front, hrun, hl₂⟩
  · exact h₁ ⟨before, rest, hl₁.symm⟩
  rcases List.append_eq_append_iff.mp hrun with ⟨left, hl₁, hsplit⟩ | ⟨gap, -, hfront⟩
  · -- The run straddles the seam: `left` ends the first list, `front` begins the second.
    have hcopy : ∀ x ∈ left ++ front, x = b := fun x hx =>
      List.eq_of_mem_replicate (hsplit ▸ hx)
    rcases List.eq_nil_or_concat left with rfl | ⟨left, x, rfl⟩
    · exact h₂ ⟨[], after, by rw [hsplit, hl₂]; rfl⟩
    · cases front with
      | nil => exact h₁ ⟨before, [], by rw [hsplit, hl₁, List.append_nil, List.append_nil]⟩
      | cons y front =>
        have hx : x = b := hcopy x (by simp)
        have hy : y = b := hcopy y (by simp)
        rcases hseam with hlast | hhead
        · exact hlast (by simp [hl₁, hx])
        · exact hhead (by simp [hl₂, hy])
  · exact h₂ ⟨gap, after, by rw [hl₂, hfront]⟩

/-- Pieces that all end, or all begin, with another element keep the bound when joined. -/
theorem runsAtMost_flatMap {b : α} {n : Nat} {f : β → List α} {l : List β}
    (hruns : ∀ x ∈ l, RunsAtMost b n (f x))
    (hends : (∀ x ∈ l, (f x).getLast? ≠ some b) ∨ ∀ x ∈ l, (f x).head? ≠ some b) :
    RunsAtMost b n (l.flatMap f) := by
  induction l with
  | nil => exact runsAtMost_nil b n
  | cons x l ih =>
    have hrest : ∀ y ∈ l, y ∈ x :: l := fun y => List.mem_cons_of_mem x
    have htail : RunsAtMost b n (l.flatMap f) :=
      ih (fun y hy => hruns y (hrest y hy))
        (hends.imp (fun h y hy => h y (hrest y hy)) fun h y hy => h y (hrest y hy))
    rw [List.flatMap_cons]
    refine (hruns x List.mem_cons_self).append htail ?_
    refine hends.imp (fun h => h x List.mem_cons_self) fun h hhead => ?_
    rw [List.head?_flatMap] at hhead
    obtain ⟨y, hy, hfirst⟩ := List.exists_of_findSome?_eq_some hhead
    exact h y (hrest y hy) hfirst

end OldRadio.Library
