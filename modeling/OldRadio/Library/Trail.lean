import Mathlib.Data.List.Nodup
import Mathlib.Order.Basic

/-!
# Trails of a partial step

A step that may have no result is repeated until it has none or reaches a goal.
If every step that does not reach a goal lowers a measure, no element comes
twice.
-/

namespace OldRadio.Library

variable {α κ : Type*}

/-- What up to `turns` steps from an element visit, the last one a goal if one is reached. -/
def trail (next : α → Option α) (goal : α → Prop) [DecidablePred goal] : Nat → α → List α
  | 0, _ => []
  | turns + 1, x =>
    match next x with
    | none => []
    | some y => if goal y then [y] else y :: trail next goal turns y

section Trail

variable {next : α → Option α} {goal : α → Prop} [DecidablePred goal] {x : α}

theorem trail_of_none (turns : Nat) (h : next x = none) : trail next goal turns x = [] := by
  cases turns with
  | zero => rfl
  | succ turns => rw [trail, h]

/-- A step to a goal ends the trail, any other is its first. -/
theorem trail_succ (turns : Nat) {y : α} (h : next x = some y) :
    trail next goal (turns + 1) x = if goal y then [y] else y :: trail next goal turns y := by
  rw [trail, h]

variable [Preorder κ] {measure : α → κ}

/-- Every step between visited elements lowers the measure or reaches a goal. -/
def Descends (next : α → Option α) (goal : α → Prop) (measure : α → κ) (visited : List α) :
    Prop :=
  ∀ y ∈ visited, ¬ goal y → ∀ z ∈ visited, next y = some z → goal z ∨ measure z < measure y

omit [DecidablePred goal] in
theorem Descends.tail {visited : List α} (h : Descends next goal measure (x :: visited)) :
    Descends next goal measure visited := fun y hy hgoal z hz =>
  h y (List.mem_cons_of_mem x hy) hgoal z (List.mem_cons_of_mem x hz)

/-- What a descending trail visits is a goal or below its start. -/
theorem lt_of_mem_trail {turns : Nat} (hx : ¬ goal x)
    (h : Descends next goal measure (x :: trail next goal turns x)) :
    ∀ y ∈ trail next goal turns x, goal y ∨ measure y < measure x := by
  induction turns generalizing x with
  | zero => exact fun y hy => absurd hy List.not_mem_nil
  | succ turns ih =>
    cases hnext : next x with
    | none =>
      rw [trail_of_none _ hnext]
      exact fun y hy => absurd hy List.not_mem_nil
    | some z =>
      rw [trail_succ _ hnext] at h ⊢
      split
      · rename_i hgoal
        intro y hy
        exact Or.inl (List.mem_singleton.mp hy ▸ hgoal)
      · rename_i hgoal
        rw [if_neg hgoal] at h
        have hz := h x List.mem_cons_self hx z (List.mem_cons_of_mem x List.mem_cons_self) hnext
        have hlt := hz.resolve_left hgoal
        intro y hy
        rcases List.mem_cons.mp hy with rfl | hy
        · exact Or.inr hlt
        · exact (ih hgoal h.tail y hy).imp_right fun hless => hless.trans hlt

/-- A descending trail visits nothing twice. -/
theorem nodup_trail {turns : Nat} (hx : ¬ goal x)
    (h : Descends next goal measure (x :: trail next goal turns x)) :
    (x :: trail next goal turns x).Nodup := by
  induction turns generalizing x with
  | zero => exact List.nodup_singleton x
  | succ turns ih =>
    refine List.nodup_cons.mpr ⟨fun hmem => ?_, ?_⟩
    · rcases lt_of_mem_trail hx h x hmem with hgoal | hlt
      · exact hx hgoal
      · exact lt_irrefl _ hlt
    · cases hnext : next x with
      | none =>
        rw [trail_of_none _ hnext]
        exact List.nodup_nil
      | some y =>
        rw [trail_succ _ hnext] at h ⊢
        split
        · exact List.nodup_singleton y
        · rename_i hgoal
          rw [if_neg hgoal] at h
          exact ih hgoal h.tail

end Trail

end OldRadio.Library
