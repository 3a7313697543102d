import Mathlib.Logic.Basic
import Mathlib.Tactic.SplitIfs

/-!
# Mutexes

A mutex guards its sections if whoever is in one holds it and nobody else does.
So only one thread is in a section, and nobody is if the mutex is free. A thread
may enter a section if it locks the free mutex, and unlocks it when it leaves.
-/

namespace OldRadio.Library

variable {θ : Type*} {mutex : Option θ} {inside inside' : θ → Bool} {p q : θ}

/-- Who is inside is who holds the mutex. -/
def Guards (mutex : Option θ) (inside : θ → Bool) : Prop :=
  ∀ p, inside p = true ↔ mutex = some p

namespace Guards

theorem free : Guards none fun _ : θ => false := fun _ => by simp

/-- Only one thread is inside. -/
theorem eq (h : Guards mutex inside) (hp : inside p = true) (hq : inside q = true) : p = q :=
  Option.some.inj (((h p).mp hp).symm.trans ((h q).mp hq))

theorem not_inside (h : Guards mutex inside) (hp : inside p = true) (hne : q ≠ p) :
    inside q = false :=
  Bool.eq_false_iff.mpr fun hq => hne (h.eq hq hp)

/-- If nobody is inside, the mutex is free. -/
theorem eq_none (h : Guards mutex inside) (hout : ∀ p, inside p = false) : mutex = none := by
  cases mutex with
  | none => rfl
  | some p =>
    have hp := (h p).mpr rfl
    rw [hout p] at hp
    cases hp

/-- Nobody enters or leaves. -/
theorem keep (h : Guards mutex inside) (hsame : ∀ q, inside' q = inside q) : Guards mutex inside' :=
  fun q => by rw [hsame q, h q]

/-- A thread enters if the mutex is free and locks it, stays with it, or unlocks it. -/
theorem step (h : Guards mutex inside) (hother : ∀ q, q ≠ p → inside' q = inside q)
    (hfree : inside' p = true → inside p = true ∨ mutex = none) :
    Guards (if inside' p = true then some p else if inside p = true then none else mutex)
      inside' := by
  intro q
  rcases eq_or_ne q p with rfl | hne
  · split_ifs with hin hwas
    · exact iff_of_true hin rfl
    · exact iff_of_false hin (by simp)
    · exact iff_of_false hin fun heq => hwas ((h q).mpr heq)
  · rw [hother q hne, h q]
    split_ifs with hin hwas
    · refine iff_of_false (fun heq => ?_) fun heq => hne (Option.some.inj heq).symm
      rcases hfree hin with hwas | hnone
      · exact hne (Option.some.inj (heq.symm.trans ((h p).mp hwas)))
      · cases hnone.symm.trans heq
    · refine iff_of_false (fun heq => ?_) (by simp)
      exact hne (Option.some.inj (heq.symm.trans ((h p).mp hwas)))
    · exact Iff.rfl

end Guards

end OldRadio.Library
