import Mathlib.Logic.Hydra
import OldRadio.Library.Transition

/-!
# Agendas that are worked off

A system takes one task after another from its agenda. What it puts in for a
task is due later than the task and before a horizon, however much it is, so it
comes to an end: a multiset that loses an element and gains smaller ones cannot
do so for ever. A clock that runs up to the horizon may put in anything, as it
advances. A system that comes to an end and is never in two minds has one run
that every other is the beginning of.
-/

namespace OldRadio.Library

open Relation

section Agenda

variable {τ : Type*} (due : τ → ℕ) (horizon : ℕ)

/-- Task `f` is due later than task `e`, and before the horizon. -/
def DueLater (f e : τ) : Prop := due e < due f ∧ due f < horizon

theorem wellFounded_dueLater : WellFounded (DueLater due horizon) := by
  refine Subrelation.wf (r := InvImage (· < ·) fun e => horizon - due e) ?_
    (InvImage.wf _ Nat.lt_wfRel.wf)
  intro f e h
  obtain ⟨hlater, hbefore⟩ := h
  change horizon - due f < horizon - due e
  omega

/-- What a turn does to the clock and the agenda. -/
inductive AgendaTurn : ℕ × Multiset τ → ℕ × Multiset τ → Prop where
  /-- A task is worked on, and what follows from it is due later. -/
  | works {clock : ℕ} {e : τ} {rest new : Multiset τ}
    (later : ∀ f ∈ new, DueLater due horizon f e) :
    AgendaTurn (clock, e ::ₘ rest) (clock, new + rest)
  /-- The clock advances. -/
  | ticks {clock clock' : ℕ} {agenda agenda' : Multiset τ} (advances : clock < clock')
    (before : clock < horizon) : AgendaTurn (clock, agenda) (clock', agenda')

/-- There are no endless turns. -/
theorem wellFounded_agendaTurn :
    WellFounded fun x y => AgendaTurn due horizon y x := by
  refine Subrelation.wf (r := Prod.Lex (fun clock' clock => clock < clock' ∧ clock < horizon)
    (CutExpand (DueLater due horizon))) ?_ (WellFounded.prod_lex ?_ ?_)
  · intro x y h
    cases h with
    | works hlater =>
      refine .right _ ⟨_, _, hlater, ?_⟩
      rw [← Multiset.singleton_add]
      ac_rfl
    | ticks hadvances hbefore => exact .left _ _ ⟨hadvances, hbefore⟩
  · refine Subrelation.wf (r := InvImage (· < ·) fun clock => horizon - clock) ?_
      (InvImage.wf _ Nat.lt_wfRel.wf)
    intro clock' clock h
    obtain ⟨hadvances, hbefore⟩ := h
    change horizon - clock' < horizon - clock
    omega
  · exact (wellFounded_dueLater due horizon).cutExpand

end Agenda

/-! ## Runs that end -/

section Ends

variable {σ ℓ ρ : Type*} {step : σ → ℓ → σ → Prop} {I : σ → Prop} {f : σ → ρ}
  {lower : ρ → ρ → Prop}

/-- Runs of a step relation that is a partial function and lowers a well-founded measure are the
beginnings of one that cannot go on. -/
theorem Run.exists_last (hlower : WellFounded lower)
    (hstep : ∀ s l t, I s → step s l t → I t ∧ lower (f t) (f s))
    (honly : ∀ s l t l' t', step s l t → step s l' t' → l = l' ∧ t = t') {s : σ} (hs : I s) :
    ∃ ls t, Run step s ls t ∧ (∀ l u, ¬ step t l u) ∧
      ∀ ls' t', Run step s ls' t' → ls' <+: ls := by
  induction hx : f s using hlower.induction generalizing s with
  | _ x ih =>
    subst hx
    by_cases hend : ∃ l u, step s l u
    · obtain ⟨l, u, hl⟩ := hend
      obtain ⟨hu, hlt⟩ := hstep s l u hs hl
      obtain ⟨ls, t, hrun, hlast, hall⟩ := ih _ hlt hu rfl
      refine ⟨l :: ls, t, .cons hl hrun, hlast, fun ls' t' hrun' => ?_⟩
      cases hrun' with
      | nil => exact List.nil_prefix
      | cons hl' hrest =>
        obtain ⟨rfl, rfl⟩ := honly _ _ _ _ _ hl hl'
        exact List.cons_prefix_cons.mpr ⟨rfl, hall _ _ hrest⟩
    · refine ⟨[], s, .nil s, fun l u hl => hend ⟨l, u, hl⟩, fun ls' t' hrun' => ?_⟩
      cases hrun' with
      | nil => exact List.nil_prefix
      | cons hl' _ => exact absurd ⟨_, _, hl'⟩ hend

end Ends

end OldRadio.Library
