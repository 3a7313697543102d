import Mathlib.Data.Nat.Size
import Mathlib.Tactic.Ring

/-!
# Rounding to a significand

A natural number converted to a floating-point format of `p` significant bits:
the nearest multiple of the step its size calls for, and the even one of two.
-/

namespace OldRadio.Library

/-- The last bits of `n` that a significand of `p` bits has no room for. -/
def excessBits (p n : Nat) : Nat := n.size - p

/-- `n` rounded to `p` significant bits, ties to even. -/
def roundSignificand (p n : Nat) : Nat :=
  let step := 2 ^ excessBits p n
  let down := n / step
  if 2 * (n % step) < step ∨ 2 * (n % step) = step ∧ down % 2 = 0 then down * step
  else (down + 1) * step

/-- A number that the significand has room for is kept. -/
theorem roundSignificand_of_lt {p n : Nat} (h : n < 2 ^ p) : roundSignificand p n = n := by
  have hexcess : excessBits p n = 0 := Nat.sub_eq_zero_of_le (Nat.size_le.mpr h)
  rw [roundSignificand, hexcess]
  simp only [Nat.pow_zero, Nat.mod_one, Nat.div_one, Nat.mul_one]
  rw [if_pos (Or.inl (by decide))]

/-- Rounding does not cross a power of two. -/
theorem roundSignificand_le {p n k : Nat} (hp : 0 < p) (h : n ≤ 2 ^ k) :
    roundSignificand p n ≤ 2 ^ k := by
  have hsize : n.size ≤ k + 1 :=
    Nat.size_le.mpr (h.trans_lt (Nat.pow_lt_pow_right (by decide) (Nat.lt_succ_self k)))
  have hpos : 0 < 2 ^ excessBits p n := Nat.pow_pos (by decide)
  obtain ⟨m, hm⟩ : 2 ^ excessBits p n ∣ 2 ^ k :=
    Nat.pow_dvd_pow 2 (by unfold excessBits; omega)
  have hdiv := Nat.div_add_mod n (2 ^ excessBits p n)
  rw [roundSignificand]
  generalize 2 ^ excessBits p n = step at *
  split
  · calc n / step * step ≤ n := Nat.div_mul_le_self n step
      _ ≤ 2 ^ k := h
  · rename_i hup
    have hlt : step * (n / step) < step * m := by omega
    have hle : n / step + 1 ≤ m := Nat.lt_of_mul_lt_mul_left hlt
    calc (n / step + 1) * step ≤ m * step := Nat.mul_le_mul_right step hle
      _ = 2 ^ k := by rw [hm, Nat.mul_comm]

end OldRadio.Library
