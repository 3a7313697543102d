import Mathlib.Data.List.Basic
import Mathlib.Order.Basic

/-!
# Runs of a step relation

A step relation with labels, its finite runs, and the ways a property of one
step becomes a property of every run: a property of the state, and of the labels
so far, that each step keeps, and a bound below which no later label falls. A
run of the images of states is the image of a run where each step is.
-/

namespace OldRadio.Library

variable {σ ℓ : Type*}

/-- The finite runs of a step relation, with the labels of their steps. -/
inductive Run (step : σ → ℓ → σ → Prop) : σ → List ℓ → σ → Prop where
  /-- No step. -/
  | nil (s : σ) : Run step s [] s
  /-- A step and the rest of the run. -/
  | cons {s t u : σ} {l : ℓ} {ls : List ℓ} (head : step s l t) (tail : Run step t ls u) :
    Run step s (l :: ls) u

namespace Run

variable {step step' : σ → ℓ → σ → Prop} {s t u : σ} {l : ℓ} {ls ls' : List ℓ}

/-- The steps of a partial function, one after the other. -/
theorem of_foldlM {f : σ → ℓ → Option σ} {ls : List ℓ} {s t : σ} (h : ls.foldlM f s = some t) :
    Run (fun s l t => f s l = some t) s ls t := by
  induction ls generalizing s with
  | nil =>
    obtain rfl : s = t := Option.some.inj h
    exact .nil s
  | cons l ls ih =>
    rw [List.foldlM_cons] at h
    obtain ⟨u, hu, hrest⟩ := Option.bind_eq_some_iff.mp h
    exact .cons hu (ih hrest)

/-- Running the partial function shows a run to a state with a property. -/
theorem exists_of_foldlM_some {f : σ → ℓ → Option σ} (ls : List ℓ) {s : σ} {P : σ → Prop}
    [DecidablePred P] (h : (ls.foldlM f s).map (fun t => decide (P t)) = some true) :
    ∃ t, Run (fun s l t => f s l = some t) s ls t ∧ P t := by
  obtain ⟨t, hrun, ht⟩ := Option.map_eq_some_iff.mp h
  exact ⟨t, of_foldlM hrun, of_decide_eq_true ht⟩

/-- The steps of a function that may stop with an error, one after the other. -/
theorem of_foldlM_ok {ε : Type*} {f : σ → ℓ → Except ε σ} {ls : List ℓ} {s t : σ}
    (h : ls.foldlM f s = .ok t) : Run (fun s l t => f s l = .ok t) s ls t := by
  induction ls generalizing s with
  | nil =>
    obtain rfl : s = t := Except.ok.inj h
    exact .nil s
  | cons l ls ih =>
    rw [List.foldlM_cons] at h
    cases hl : f s l with
    | error e =>
      rw [hl] at h
      cases h
    | ok u =>
      rw [hl] at h
      exact .cons hl (ih h)

/-- Running the function shows a run to a state with a property. -/
theorem exists_of_foldlM {ε : Type*} {f : σ → ℓ → Except ε σ} (ls : List ℓ) {s : σ}
    {P : σ → Prop} [DecidablePred P]
    (h : (ls.foldlM f s).map (fun t => decide (P t)) = .ok true) :
    ∃ t, Run (fun s l t => f s l = .ok t) s ls t ∧ P t := by
  cases hrun : ls.foldlM f s with
  | error e =>
    rw [hrun] at h
    cases h
  | ok t =>
    rw [hrun] at h
    exact ⟨t, of_foldlM_ok hrun, of_decide_eq_true (Except.ok.inj h)⟩

/-- A run of a stronger step relation is a run of a weaker one. -/
theorem mono (h : Run step s ls t) (hstep : ∀ s l t, step s l t → step' s l t) :
    Run step' s ls t := by
  induction h with
  | nil s => exact .nil s
  | cons head _ ih => exact .cons (hstep _ _ _ head) ih

/-- A run and a step more. -/
theorem snoc (h : Run step s ls t) (hstep : step t l u) : Run step s (ls ++ [l]) u := by
  induction h with
  | nil s => exact .cons hstep (.nil u)
  | cons head _ ih => exact .cons head (ih hstep)

/-- A run and another one that begins where it ends. -/
theorem append (h : Run step s ls t) (h' : Run step t ls' u) : Run step s (ls ++ ls') u := by
  induction h with
  | nil s => exact h'
  | cons head _ ih => exact .cons head (ih h')

/-- A property that every step keeps holds at the end of every run. -/
theorem keeps {I : σ → Prop} (h : Run step s ls t)
    (hstep : ∀ s l t, I s → step s l t → I t) (hs : I s) : I t := by
  induction h with
  | nil s => exact hs
  | cons head _ ih => exact ih (hstep _ _ _ hs head)

/-- A property of the labels so far and the state that every step keeps holds at the end of every
run. -/
theorem keeps_labels {I : List ℓ → σ → Prop} (h : Run step s ls t)
    (hstep : ∀ ls s l t, I ls s → step s l t → I (ls ++ [l]) t) (hs : I [] s) : I ls t := by
  have hrun : ∀ done, I done s → I (done ++ ls) t := by
    clear hs
    induction h with
    | nil s =>
      intro done hdone
      rwa [List.append_nil]
    | cons head _ ih =>
      intro done hdone
      have hrest := ih _ (hstep done _ _ _ hdone head)
      rwa [List.append_assoc] at hrest
  exact hrun [] hs

/-- A run of the images of some states is the image of a run, if every step from an image is. -/
theorem lift {σ' : Type*} {step' : σ' → ℓ → σ' → Prop} {f : σ' → σ}
    (hstep : ∀ s' l t, step (f s') l t → ∃ t', step' s' l t' ∧ f t' = t) {s' : σ'}
    (h : Run step (f s') ls t) : ∃ t', Run step' s' ls t' ∧ f t' = t := by
  generalize hs : f s' = s at h
  induction h generalizing s' with
  | nil s => exact ⟨s', .nil s', hs⟩
  | cons head _ ih =>
    subst hs
    obtain ⟨t', hhead, rfl⟩ := hstep _ _ _ head
    obtain ⟨u', htail, hu⟩ := ih rfl
    exact ⟨u', .cons hhead htail, hu⟩

/-- What every step says of its label holds of all labels of a run. -/
theorem forall_labels {I : σ → Prop} {P : ℓ → Prop} (h : Run step s ls t)
    (hstep : ∀ s l t, I s → step s l t → I t ∧ P l) (hs : I s) : ∀ l ∈ ls, P l := by
  induction h with
  | nil s => exact fun l hl => absurd hl List.not_mem_nil
  | cons head _ ih =>
    obtain ⟨ht, hl⟩ := hstep _ _ _ hs head
    exact List.forall_mem_cons.mpr ⟨hl, ih ht⟩

/-- What holds of all labels of a run may be asked of each step. -/
theorem and_labels {P : ℓ → Prop} (h : Run step s ls t) (hls : ∀ l ∈ ls, P l) :
    Run (fun s l t => step s l t ∧ P l) s ls t := by
  induction h with
  | nil s => exact .nil s
  | cons head _ ih =>
    obtain ⟨hl, hls⟩ := List.forall_mem_cons.mp hls
    exact .cons ⟨head, hl⟩ (ih hls)

/-- A run refines one of another relation if each step is a step of it or leaves the image of the
state as it is. -/
theorem refines {τ κ : Type*} {step' : τ → κ → τ → Prop} {I : σ → Prop} {f : σ → τ}
    {g : ℓ → Option κ} (h : Run step s ls t)
    (hstep : ∀ s l t, I s → step s l t →
      I t ∧ (g l = none → f t = f s) ∧ ∀ k, g l = some k → step' (f s) k (f t)) (hs : I s) :
    Run step' (f s) (ls.filterMap g) (f t) := by
  induction h with
  | nil s => exact .nil (f s)
  | @cons s t u l ls head _ ih =>
    obtain ⟨ht, hnone, hsome⟩ := hstep _ _ _ hs head
    cases hg : g l with
    | none =>
      rw [List.filterMap_cons_none hg, ← hnone hg]
      exact ih ht
    | some k =>
      rw [List.filterMap_cons_some hg]
      exact .cons (hsome k hg) (ih ht)

/-- There are no more steps than a number that every step lowers. -/
theorem length_add_le {I : σ → Prop} {μ : σ → Nat} (h : Run step s ls t)
    (hstep : ∀ s l t, I s → step s l t → I t ∧ μ t < μ s) (hs : I s) :
    ls.length + μ t ≤ μ s := by
  induction h with
  | nil s => exact Nat.le_of_eq (Nat.zero_add _)
  | cons head _ ih =>
    obtain ⟨ht, hless⟩ := hstep _ _ _ hs head
    have hrest := ih ht
    rw [List.length_cons]
    omega

/-- So some run cannot go on. -/
theorem exists_stuck {I : σ → Prop} {μ : σ → Nat}
    (hstep : ∀ s l t, I s → step s l t → I t ∧ μ t < μ s) {s : σ} (hs : I s) :
    ∃ ls t, Run step s ls t ∧ ∀ l u, ¬ step t l u := by
  induction hn : μ s using Nat.strongRecOn generalizing s with
  | _ n ih =>
    by_cases hgo : ∃ l t, step s l t
    · obtain ⟨l, t, hl⟩ := hgo
      obtain ⟨ht, hless⟩ := hstep s l t hs hl
      obtain ⟨ls, u, hrun, hu⟩ := ih (μ t) (hn ▸ hless) ht rfl
      exact ⟨l :: ls, u, .cons hl hrun, hu⟩
    · exact ⟨[], s, .nil s, fun l u hl => hgo ⟨l, u, hl⟩⟩

/-- If a state bounds the key of the next label from below, and that key bounds
what follows, the keys of every run are in order. -/
theorem sorted {κ : Type*} [Preorder κ] (h : Run step s ls t) (key : ℓ → κ)
    (above : κ → σ → Prop)
    (hstep : ∀ k s l t, above k s → step s l t → k ≤ key l ∧ above (key l) t) {k : κ}
    (hs : above k s) : (∀ l ∈ ls, k ≤ key l) ∧ (ls.map key).Pairwise (· ≤ ·) := by
  induction h generalizing k with
  | nil s => exact ⟨fun l hl => absurd hl List.not_mem_nil, .nil⟩
  | cons head tail ih =>
    obtain ⟨hk, hnext⟩ := hstep _ _ _ _ hs head
    obtain ⟨hall, hsorted⟩ := ih hnext
    refine ⟨?_, ?_⟩
    · intro l hl
      rcases List.mem_cons.mp hl with rfl | hl
      · exact hk
      · exact hk.trans (hall l hl)
    · rw [List.map_cons, List.pairwise_cons]
      refine ⟨?_, hsorted⟩
      intro k' hk'
      obtain ⟨l, hl, rfl⟩ := List.mem_map.mp hk'
      exact hall l hl

end Run

/-- At most `n` steps of a function that may stop, with an error or because there is nothing to do:
their labels and the last state. -/
def runFor {ε : Type*} (f : σ → Except ε (Option (ℓ × σ))) : Nat → σ → Except ε (List ℓ × σ)
  | 0, s => return ([], s)
  | n + 1, s => do
    match ← f s with
    | none => return ([], s)
    | some (l, t) =>
      let (ls, u) ← runFor f n t
      return (l :: ls, u)

/-- What is run so is a run. -/
theorem Run.of_runFor {ε : Type*} {f : σ → Except ε (Option (ℓ × σ))} {n : Nat} {s t : σ}
    {ls : List ℓ} (h : runFor f n s = .ok (ls, t)) :
    Run (fun s l t => f s = .ok (some (l, t))) s ls t := by
  induction n generalizing s ls with
  | zero =>
    cases h
    exact .nil _
  | succ n ih =>
    rw [runFor] at h
    cases hf : f s with
    | error e =>
      rw [hf] at h
      cases h
    | ok next =>
      rw [hf] at h
      cases next with
      | none =>
        cases h
        exact .nil _
      | some next =>
        obtain ⟨l, u⟩ := next
        cases hrest : runFor f n u with
        | error e =>
          simp only [bind, Except.bind, hrest] at h
          cases h
        | ok rest =>
          simp only [bind, Except.bind, hrest] at h
          cases h
          exact .cons hf (ih hrest)

end OldRadio.Library
