import Mathlib.Data.List.Forall2

/-!
# Programs that may stop

Programs over a state that may stop with an error, and what holds after them.
`Wp m good bad s` says how `m` ends from `s`: with a result and a state that are
`good`, or with an error that is `bad`. A property that every step of a program
keeps is kept by the program. A program over a larger state may project to one
over a part of it; then the two stop together, and their results agree.
-/

namespace OldRadio.Library

section

variable {σ ε α β : Type}

/-- From `s`, `m` ends with a good result and state, or stops with a bad error. -/
def Wp (m : StateT σ (Except ε) α) (good : α → σ → Prop) (bad : ε → Prop) (s : σ) : Prop :=
  match m s with
  | .ok (a, s') => good a s'
  | .error e => bad e

theorem Wp.of_ok {m : StateT σ (Except ε) α} {good : α → σ → Prop} {bad : ε → Prop} {s s' : σ}
    {a : α} (h : Wp m good bad s) (hm : m s = .ok (a, s')) : good a s' := by
  rwa [Wp, hm] at h

theorem Wp.of_error {m : StateT σ (Except ε) α} {good : α → σ → Prop} {bad : ε → Prop} {s : σ}
    {e : ε} (h : Wp m good bad s) (hm : m s = .error e) : bad e := by
  rwa [Wp, hm] at h

/-- A program that never stops with an error ends well. -/
theorem Wp.exists_ok {m : StateT σ (Except ε) α} {good : α → σ → Prop} {s : σ}
    (h : Wp m good (fun _ => False) s) : ∃ a s', m s = .ok (a, s') ∧ good a s' := by
  cases hm : m s with
  | ok r => exact ⟨r.1, r.2, rfl, h.of_ok hm⟩
  | error e => exact (h.of_error hm).elim

/-- A program stops with an error exactly when a condition does not hold. -/
theorem Wp.error_iff {m : StateT σ (Except ε) α} {e : ε} {p : Prop} {s : σ}
    (h : Wp m (fun _ _ => p) (fun e' => e' = e ↔ ¬ p) s) : m s = .error e ↔ ¬ p := by
  cases hm : m s with
  | ok r => exact iff_of_false (fun he => by cases he) (not_not_intro (h.of_ok hm))
  | error e' =>
    rw [Except.error.injEq]
    exact h.of_error hm

/-- What holds after a program holds after it in a weaker form. -/
theorem Wp.mono {m : StateT σ (Except ε) α} {good good' : α → σ → Prop} {bad bad' : ε → Prop}
    {s : σ} (h : Wp m good bad s) (hgood : ∀ a s, good a s → good' a s)
    (hbad : ∀ e, bad e → bad' e) : Wp m good' bad' s := by
  rw [Wp] at h ⊢
  split
  · rename_i a s' hm
    rw [hm] at h
    exact hgood a s' h
  · rename_i e hm
    rw [hm] at h
    exact hbad e h

/-- The same when nothing changes about the errors. -/
theorem Wp.imp {m : StateT σ (Except ε) α} {good good' : α → σ → Prop} {bad : ε → Prop} {s : σ}
    (h : Wp m good bad s) (hgood : ∀ a s, good a s → good' a s) : Wp m good' bad s :=
  h.mono hgood fun _ he => he

/-- Nothing is asked of the end. -/
theorem wp_true (m : StateT σ (Except ε) α) (s : σ) :
    Wp m (fun _ _ => True) (fun _ => True) s := by
  rw [Wp]
  split <;> trivial

/-- Two properties of a program's end hold together. -/
theorem Wp.and {m : StateT σ (Except ε) α} {good good' : α → σ → Prop} {bad bad' : ε → Prop}
    {s : σ} (h : Wp m good bad s) (h' : Wp m good' bad' s) :
    Wp m (fun a s => good a s ∧ good' a s) (fun e => bad e ∧ bad' e) s := by
  rw [Wp] at h h' ⊢
  split
  · rename_i a s' hm
    rw [hm] at h h'
    exact ⟨h, h'⟩
  · rename_i e hm
    rw [hm] at h h'
    exact ⟨h, h'⟩

variable {good : β → σ → Prop} {bad : ε → Prop} {s : σ}

@[simp] theorem wp_pure {good : α → σ → Prop} (a : α) :
    Wp (pure a : StateT σ (Except ε) α) good bad s ↔ good a s := Iff.rfl

@[simp] theorem wp_throw {good : α → σ → Prop} (e : ε) :
    Wp (throw e : StateT σ (Except ε) α) good bad s ↔ bad e := Iff.rfl

@[simp] theorem wp_get {good : σ → σ → Prop} :
    Wp (get : StateT σ (Except ε) σ) good bad s ↔ good s s := Iff.rfl

@[simp] theorem wp_modify {good : Unit → σ → Prop} (f : σ → σ) :
    Wp (modify f : StateT σ (Except ε) Unit) good bad s ↔ good () (f s) := Iff.rfl

/-- One program after another: the second starts where the first ends. -/
@[simp] theorem wp_bind (m : StateT σ (Except ε) α) (f : α → StateT σ (Except ε) β) :
    Wp (m >>= f) good bad s ↔ Wp m (fun a => Wp (f a) good bad) bad s := by
  simp only [Wp, bind, StateT.bind, Except.bind]
  cases m s <;> rfl

/-- A computation that reads no state, as a program. -/
theorem wp_ofExcept {good : α → σ → Prop} {x : Except ε α} (hgood : ∀ a, x = .ok a → good a s)
    (hbad : ∀ e, x = .error e → bad e) :
    Wp (MonadExcept.ofExcept x : StateT σ (Except ε) α) good bad s := by
  cases x with
  | ok a => exact hgood a rfl
  | error e => exact hbad e rfl

theorem wp_ite {c : Prop} [Decidable c] (m m' : StateT σ (Except ε) β) :
    Wp (if c then m else m') good bad s ↔
      (c → Wp m good bad s) ∧ (¬ c → Wp m' good bad s) := by
  split
  · rename_i h
    exact ⟨fun hm => ⟨fun _ => hm, fun hn => absurd h hn⟩, fun hm => hm.1 h⟩
  · rename_i h
    exact ⟨fun hm => ⟨fun hc => absurd hc h, fun _ => hm⟩, fun hm => hm.2 h⟩

/-- A loop over a list, by a property of the part still to do. -/
theorem wp_forM {f : α → StateT σ (Except ε) Unit} (rest : List α → σ → Prop)
    (step : ∀ x xs s, rest (x :: xs) s → Wp (f x) (fun _ => rest xs) bad s) {xs : List α}
    (h : rest xs s) : Wp (forM xs f) (fun _ => rest []) bad s := by
  induction xs generalizing s with
  | nil => exact h
  | cons x xs ih =>
    rw [List.forM_cons, wp_bind]
    exact (step x xs s h).imp fun _ s' h' => ih h'

/-- A loop over a list that collects results, by a property of the part still to do and one of
each result. -/
theorem wp_mapM {f : α → StateT σ (Except ε) β} (rest : List α → σ → Prop) (result : α → β → Prop)
    (step : ∀ x xs s, rest (x :: xs) s → Wp (f x) (fun b s' => result x b ∧ rest xs s') bad s)
    {xs : List α} (h : rest xs s) :
    Wp (xs.mapM f) (fun bs s' => List.Forall₂ result xs bs ∧ rest [] s') bad s := by
  induction xs generalizing s with
  | nil =>
    rw [List.mapM_nil, wp_pure]
    exact ⟨.nil, h⟩
  | cons x xs ih =>
    rw [List.mapM_cons, wp_bind]
    refine (step x xs s h).imp fun b s' hb => ?_
    rw [wp_bind]
    exact (ih hb.2).imp fun bs s'' hbs => ⟨.cons hb.1 hbs.1, hbs.2⟩

end

section Keeps

variable {σ ε α β : Type} {I : σ → Prop} {bad : ε → Prop}

/-- From every state with the property, `m` ends in a state with it or stops with a bad error. -/
def Keeps (I : σ → Prop) (bad : ε → Prop) (m : StateT σ (Except ε) α) : Prop :=
  ∀ s, I s → Wp m (fun _ => I) bad s

theorem keeps_pure (a : α) : Keeps I bad (pure a : StateT σ (Except ε) α) := fun _ h => h

theorem keeps_throw {e : ε} (h : bad e) : Keeps I bad (throw e : StateT σ (Except ε) α) :=
  fun _ _ => h

theorem Keeps.bind {m : StateT σ (Except ε) α} {f : α → StateT σ (Except ε) β}
    (hm : Keeps I bad m) (hf : ∀ a, Keeps I bad (f a)) : Keeps I bad (m >>= f) := by
  intro s h
  rw [wp_bind]
  exact (hm s h).imp fun a s' h' => hf a s' h'

theorem Keeps.ite {c : Prop} [Decidable c] {m m' : StateT σ (Except ε) α}
    (hm : c → Keeps I bad m) (hm' : ¬ c → Keeps I bad m') :
    Keeps I bad (if c then m else m') := by
  split
  · rename_i h
    exact hm h
  · rename_i h
    exact hm' h

theorem keeps_forM {f : α → StateT σ (Except ε) Unit} {xs : List α}
    (h : ∀ x ∈ xs, Keeps I bad (f x)) : Keeps I bad (forM xs f) := by
  induction xs with
  | nil => exact keeps_pure ()
  | cons x xs ih =>
    rw [List.forM_cons]
    exact (h x List.mem_cons_self).bind fun _ => ih fun y hy => h y (List.mem_cons_of_mem x hy)

theorem keeps_mapM {f : α → StateT σ (Except ε) β} {xs : List α}
    (h : ∀ x ∈ xs, Keeps I bad (f x)) : Keeps I bad (xs.mapM f) := by
  induction xs with
  | nil => exact keeps_pure []
  | cons x xs ih =>
    rw [List.mapM_cons]
    refine (h x List.mem_cons_self).bind fun _ => Keeps.bind ?_ fun _ => keeps_pure _
    exact ih fun y hy => h y (List.mem_cons_of_mem x hy)

/-- A loop over a list that may stop keeps what every turn keeps. -/
theorem foldlM_keeps {f : σ → α → Except ε σ} {xs : List α}
    (step : ∀ x ∈ xs, ∀ s s', I s → f s x = .ok s' → I s') {s s' : σ} (hs : I s)
    (h : xs.foldlM f s = .ok s') : I s' := by
  induction xs generalizing s with
  | nil =>
    cases h
    exact hs
  | cons x xs ih =>
    rw [List.foldlM_cons] at h
    cases hx : f s x with
    | error e =>
      rw [hx] at h
      cases h
    | ok t =>
      rw [hx] at h
      exact ih (fun y hy => step y (List.mem_cons_of_mem x hy))
        (step x List.mem_cons_self s t hs hx) h

end Keeps

section Projects

variable {σ τ ε α β : Type} {f : σ → τ}

/-- What `m` does to a state, `m'` does to its image. -/
def Projects (f : σ → τ) (m : StateT σ (Except ε) α) (m' : StateT τ (Except ε) α) : Prop :=
  ∀ s, (m s).map (fun r => (r.1, f r.2)) = m' (f s)

/-- Where the image of a program ends, the program ends over it. -/
theorem Projects.of_ok {m : StateT σ (Except ε) α} {m' : StateT τ (Except ε) α} {s : σ} {t : τ}
    {a : α} (h : Projects f m m') (hm' : m' (f s) = .ok (a, t)) :
    ∃ s', m s = .ok (a, s') ∧ f s' = t := by
  have hs := h s
  rw [hm'] at hs
  cases hm : m s with
  | ok r =>
    rw [hm] at hs
    cases hs
    exact ⟨r.2, rfl, rfl⟩
  | error e =>
    rw [hm] at hs
    cases hs

/-- Where the image of a program stops, the program stops with the same error. -/
theorem Projects.of_error {m : StateT σ (Except ε) α} {m' : StateT τ (Except ε) α} {s : σ} {e : ε}
    (h : Projects f m m') (hm' : m' (f s) = .error e) : m s = .error e := by
  have hs := h s
  rw [hm'] at hs
  cases hm : m s with
  | ok r =>
    rw [hm] at hs
    cases hs
  | error e' =>
    rw [hm] at hs
    exact congrArg Except.error (Except.error.inj hs)

theorem projects_pure (a : α) :
    Projects f (pure a : StateT σ (Except ε) α) (pure a) := fun _ => rfl

theorem projects_throw (e : ε) :
    Projects f (throw e : StateT σ (Except ε) α) (throw e) := fun _ => rfl

theorem projects_modify {g : σ → σ} {g' : τ → τ} (h : ∀ s, f (g s) = g' (f s)) :
    Projects f (modify g : StateT σ (Except ε) Unit) (modify g') := fun s =>
  congrArg (fun t => Except.ok ((), t)) (h s)

theorem projects_ofExcept (x : Except ε α) :
    Projects f (MonadExcept.ofExcept x : StateT σ (Except ε) α) (MonadExcept.ofExcept x) := by
  intro s
  cases x with
  | ok a => rfl
  | error e => rfl

theorem Projects.bind {m : StateT σ (Except ε) α} {m' : StateT τ (Except ε) α}
    {k : α → StateT σ (Except ε) β} {k' : α → StateT τ (Except ε) β} (hm : Projects f m m')
    (hk : ∀ a, Projects f (k a) (k' a)) : Projects f (m >>= k) (m' >>= k') := by
  intro s
  have hs := hm s
  simp only [Bind.bind, StateT.bind]
  rw [← hs]
  cases m s with
  | ok r => exact hk r.1 r.2
  | error e => rfl

/-- A program may read its state and go on with what is the same in the image. -/
theorem Projects.get_bind {k : σ → StateT σ (Except ε) β} {k' : τ → StateT τ (Except ε) β}
    (hk : ∀ s, Projects f (k s) (k' (f s))) : Projects f (get >>= k) (get >>= k') := fun s => hk s s

theorem Projects.ite {c : Prop} [Decidable c] {m₁ m₂ : StateT σ (Except ε) α}
    {m₁' m₂' : StateT τ (Except ε) α} (h₁ : Projects f m₁ m₁') (h₂ : Projects f m₂ m₂') :
    Projects f (if c then m₁ else m₂) (if c then m₁' else m₂') := by
  split
  · exact h₁
  · exact h₂

theorem projects_forM {m : α → StateT σ (Except ε) Unit} {m' : α → StateT τ (Except ε) Unit}
    (h : ∀ x, Projects f (m x) (m' x)) (xs : List α) :
    Projects f (forM xs m) (forM xs m') := by
  induction xs with
  | nil => exact projects_pure ()
  | cons x xs ih =>
    rw [List.forM_cons, List.forM_cons]
    exact (h x).bind fun _ => ih

theorem projects_mapM {m : α → StateT σ (Except ε) β} {m' : α → StateT τ (Except ε) β}
    (h : ∀ x, Projects f (m x) (m' x)) (xs : List α) :
    Projects f (xs.mapM m) (xs.mapM m') := by
  induction xs with
  | nil => exact projects_pure []
  | cons x xs ih =>
    rw [List.mapM_cons, List.mapM_cons]
    exact (h x).bind fun _ => ih.bind fun _ => projects_pure _

end Projects

end OldRadio.Library
