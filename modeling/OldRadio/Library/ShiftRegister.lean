import Mathlib.Algebra.BigOperators.Fin
import Mathlib.Algebra.Field.ZMod

/-!
# Shift registers over two elements

A register of `w` bits that takes bits in from the right and folds the bit it
loses on the left back in through the taps `g`. Fed with a message it holds the
remainder of the message as a polynomial, so what it says about errors is linear:
a pattern of flipped bits goes unseen exactly when its own remainder is zero.
Patterns with an odd number of bits, with two bits, and shorter than the register
have a remainder of their own, each for a reason stated here once.
-/

namespace OldRadio.Library

variable {w : Nat}

/-- One step of the register: shift left and fold the lost bit back in. -/
def advance (g c : BitVec w) : BitVec w := c <<< 1 ^^^ (if c.msb then g else 0#w)

/-- What the register holds after a message, first bit first. -/
def remainder (g : BitVec w) (bits : List Bool) : BitVec w :=
  bits.foldl (fun c b => advance g c ^^^ (if b then 1#w else 0#w)) 0#w

section Linear

variable (g : BitVec w)

private theorem xor_exchange (a b c d : BitVec w) :
    a ^^^ b ^^^ (c ^^^ d) = a ^^^ c ^^^ (b ^^^ d) := by
  rw [BitVec.xor_assoc, BitVec.xor_assoc, ← BitVec.xor_assoc b, BitVec.xor_comm b c,
    BitVec.xor_assoc c]

theorem advance_xor (a b : BitVec w) : advance g (a ^^^ b) = advance g a ^^^ advance g b := by
  simp only [advance, BitVec.shiftLeft_xor_distrib, BitVec.msb_xor]
  rw [xor_exchange]
  congr 1
  cases a.msb <;> cases b.msb <;> simp

@[simp] theorem advance_zero : advance g 0#w = 0#w := by
  simp [advance]

theorem iterate_advance_xor (n : Nat) (a b : BitVec w) :
    (advance g)^[n] (a ^^^ b) = (advance g)^[n] a ^^^ (advance g)^[n] b := by
  induction n generalizing a b with
  | zero => rfl
  | succ n ih => rw [Function.iterate_succ_apply, advance_xor, ih]; rfl

@[simp] theorem iterate_advance_zero (n : Nat) : (advance g)^[n] 0#w = 0#w :=
  Function.iterate_fixed (advance_zero g) n

@[simp] theorem remainder_nil : remainder g [] = 0#w := rfl

theorem remainder_concat (bits : List Bool) (b : Bool) :
    remainder g (bits ++ [b]) = advance g (remainder g bits) ^^^ (if b then 1#w else 0#w) := by
  rw [remainder, List.foldl_concat, remainder]

/-- The bits of a message count one after the other. -/
theorem remainder_append (xs ys : List Bool) :
    remainder g (xs ++ ys) = (advance g)^[ys.length] (remainder g xs) ^^^ remainder g ys := by
  induction ys using List.reverseRecOn with
  | nil => simp
  | append_singleton ys b ih =>
    rw [← List.append_assoc, remainder_concat, ih, advance_xor, remainder_concat,
      List.length_append, List.length_singleton, Function.iterate_succ_apply', BitVec.xor_assoc]

theorem remainder_cons (b : Bool) (bits : List Bool) :
    remainder g (b :: bits) =
      (if b then (advance g)^[bits.length] 1#w else 0#w) ^^^ remainder g bits := by
  have h := remainder_append g [b] bits
  rw [List.singleton_append] at h
  have hbit : remainder g [b] = if b then 1#w else 0#w := by
    simp only [remainder, List.foldl_cons, List.foldl_nil, advance_zero, BitVec.zero_xor]
  rw [h, hbit]
  cases b <;> simp

/-- Zeros in front of a message do not count. -/
theorem remainder_replicate_false (n : Nat) (bits : List Bool) :
    remainder g (List.replicate n false ++ bits) = remainder g bits := by
  induction n with
  | zero => rfl
  | succ n ih =>
    rw [List.replicate_succ, List.cons_append, remainder_cons, ih]
    simp

/-- One step of the register fed at its other end: the taps are folded in when the bit that is
lost differs from the bit that comes. -/
def divideBit (c : BitVec w) (b : Bool) : BitVec w :=
  c <<< 1 ^^^ (if c.msb != b then g else 0#w)

theorem divideBit_eq (c : BitVec w) (b : Bool) :
    divideBit g c b = advance g c ^^^ (if b then g else 0#w) := by
  rw [divideBit, advance, BitVec.xor_assoc]
  cases c.msb <;> cases b <;> simp

/-- What a register held before a message counts apart from the message. -/
theorem foldl_divideBit (bits : List Bool) (c : BitVec w) :
    bits.foldl (divideBit g) c =
      (advance g)^[bits.length] c ^^^ bits.foldl (divideBit g) 0#w := by
  induction bits generalizing c with
  | nil => simp
  | cons b bits ih =>
    rw [List.foldl_cons, List.foldl_cons, ih (divideBit g c b), ih (divideBit g 0#w b),
      divideBit_eq, divideBit_eq, advance_zero, BitVec.zero_xor, iterate_advance_xor,
      List.length_cons, Function.iterate_succ_apply, BitVec.xor_assoc]

end Linear

/-! ## Patterns with a remainder -/

section Taps

variable {g : BitVec w} (hg : g.getLsbD 0 = true)
include hg

/-- A register that taps its first bit loses nothing. -/
theorem advance_eq_zero {c : BitVec w} (h : advance g c = 0#w) : c = 0#w := by
  have hmsb : c.msb = false := by
    cases hmsb : c.msb with
    | false => rfl
    | true =>
      have hbit := congrArg (fun v : BitVec w => v.getLsbD 0) h
      simp [advance, hmsb, hg] at hbit
  rw [advance, hmsb] at h
  apply BitVec.eq_of_getLsbD_eq
  intro i hi
  rw [BitVec.getLsbD_zero]
  by_cases hlast : i + 1 < w
  · have hbit := congrArg (fun v : BitVec w => v.getLsbD (i + 1)) h
    rw [BitVec.getLsbD_xor] at hbit
    simpa only [BitVec.getLsbD_shiftLeft, hlast, decide_true, Bool.true_and, Nat.add_sub_cancel,
      Bool.false_eq_true, if_false, BitVec.getLsbD_zero, Bool.xor_false, Nat.not_lt_zero,
      decide_false, Bool.not_false, Nat.lt_one_iff, Nat.add_eq_zero_iff, Nat.one_ne_zero,
      and_false] using hbit
  · rw [BitVec.msb_eq_getLsbD_last] at hmsb
    rwa [show i = w - 1 by omega]

theorem iterate_advance_eq_zero {n : Nat} {c : BitVec w} (h : (advance g)^[n] c = 0#w) :
    c = 0#w := by
  induction n generalizing c with
  | zero => exact h
  | succ n ih => exact advance_eq_zero hg (ih h)

theorem iterate_advance_injective {n : Nat} {a b : BitVec w}
    (h : (advance g)^[n] a = (advance g)^[n] b) : a = b := by
  have hzero : (advance g)^[n] (a ^^^ b) = 0#w := by
    rw [iterate_advance_xor, h, BitVec.xor_self]
  have := iterate_advance_eq_zero hg hzero
  exact BitVec.xor_eq_zero_iff.mp this

/-- A short pattern in front of zeros has a remainder if it has one by itself. -/
theorem remainder_append_replicate_false {bits : List Bool} (n : Nat)
    (h : remainder g bits ≠ 0#w) : remainder g (bits ++ List.replicate n false) ≠ 0#w := by
  have hzeros : remainder g (List.replicate n false) = 0#w := by
    have := remainder_replicate_false g n []
    rwa [List.append_nil] at this
  rw [remainder_append, hzeros]
  intro hzero
  exact h (iterate_advance_eq_zero hg (by simpa using hzero))

end Taps

section Two

variable (g : BitVec w)

theorem remainder_of_count_zero {bits : List Bool} (h : bits.count true = 0) :
    remainder g bits = 0#w := by
  have hfalse : bits = List.replicate bits.length false :=
    List.eq_replicate_iff.mpr ⟨rfl, fun b hb =>
      Bool.eq_false_of_not_eq_true fun htrue => List.count_eq_zero.mp h (htrue ▸ hb)⟩
  rw [hfalse]
  have := remainder_replicate_false g bits.length []
  rwa [List.append_nil] at this

theorem remainder_of_count_one {bits : List Bool} (h : bits.count true = 1) :
    ∃ i < bits.length, remainder g bits = (advance g)^[i] 1#w := by
  induction bits with
  | nil => cases h
  | cons b bits ih =>
    cases b with
    | true =>
      rw [List.count_cons_self, Nat.add_eq_right] at h
      refine ⟨bits.length, by simp, ?_⟩
      rw [remainder_cons, remainder_of_count_zero g h]
      simp
    | false =>
      rw [List.count_cons_of_ne (by decide)] at h
      obtain ⟨i, hi, hbits⟩ := ih h
      refine ⟨i, by rw [List.length_cons]; omega, ?_⟩
      rw [remainder_cons, hbits]
      simp

theorem remainder_of_count_two {bits : List Bool} (h : bits.count true = 2) :
    ∃ i j, i < j ∧ j < bits.length ∧
      remainder g bits = (advance g)^[j] 1#w ^^^ (advance g)^[i] 1#w := by
  induction bits with
  | nil => cases h
  | cons b bits ih =>
    cases b with
    | true =>
      rw [List.count_cons_self] at h
      obtain ⟨i, hi, hbits⟩ := remainder_of_count_one g (Nat.succ.inj h)
      refine ⟨i, bits.length, hi, by simp, ?_⟩
      rw [remainder_cons, hbits]
      simp
    | false =>
      rw [List.count_cons_of_ne (by decide)] at h
      obtain ⟨i, j, hij, hj, hbits⟩ := ih h
      refine ⟨i, j, hij, by rw [List.length_cons]; omega, ?_⟩
      rw [remainder_cons, hbits]
      simp

/-- Two bits have a remainder as long as their distance is less than the register's period. -/
theorem remainder_ne_zero_of_count_two (hg : g.getLsbD 0 = true) {bits : List Bool}
    (hperiod : ∀ d, 0 < d → d < bits.length → (advance g)^[d] 1#w ≠ 1#w)
    (h : bits.count true = 2) : remainder g bits ≠ 0#w := by
  obtain ⟨i, j, hij, hj, hbits⟩ := remainder_of_count_two g h
  rw [hbits]
  intro hzero
  have heq : (advance g)^[i] ((advance g)^[j - i] 1#w) = (advance g)^[i] 1#w := by
    rw [← Function.iterate_add_apply, Nat.add_sub_cancel' hij.le]
    exact BitVec.xor_eq_zero_iff.mp hzero
  exact hperiod (j - i) (by omega) (by omega) (iterate_advance_injective hg heq)

end Two

/-! ## Parity -/

/-- A bit as an element of the field of two elements. -/
def bitValue (b : Bool) : ZMod 2 := if b then 1 else 0

theorem bitValue_xor (a b : Bool) : bitValue (a ^^ b) = bitValue a + bitValue b := by
  cases a <;> cases b <;> decide

/-- The number of bits set, modulo two. -/
def parity (v : BitVec w) : ZMod 2 := ∑ i : Fin w, bitValue (v.getLsbD i)

theorem parity_xor (a b : BitVec w) : parity (a ^^^ b) = parity a + parity b := by
  simp only [parity, BitVec.getLsbD_xor, bitValue_xor, Finset.sum_add_distrib]

@[simp] theorem parity_zero : parity 0#w = 0 :=
  Finset.sum_eq_zero fun i _ => by
    rw [BitVec.getLsbD_zero]
    rfl

section Parity

variable {n : Nat}

/-- Shifting loses the last bit. -/
theorem parity_shiftLeft_one (v : BitVec (n + 1)) :
    parity (v <<< 1) = parity v + bitValue v.msb := by
  have hlast : v.msb = v.getLsbD n := BitVec.msb_eq_getLsbD_last v
  have hdouble : bitValue v.msb + bitValue v.msb = 0 := by
    cases v.msb <;> decide
  rw [parity, parity, Fin.sum_univ_succ, Fin.sum_univ_castSucc, Fin.val_last, ← hlast, add_assoc,
    hdouble, add_zero]
  have hzero : (v <<< 1).getLsbD (0 : Fin (n + 1)) = false := by simp
  rw [hzero]
  refine (zero_add _).trans (Finset.sum_congr rfl fun i _ => ?_)
  have hi := i.isLt
  simp [show (i : Nat) + 1 < n + 1 by omega]

/-- A register with an odd number of taps keeps the parity. -/
theorem parity_advance {g : BitVec (n + 1)} (hg : parity g = 1) (c : BitVec (n + 1)) :
    parity (advance g c) = parity c := by
  rw [advance, parity_xor, parity_shiftLeft_one, add_assoc]
  cases c.msb with
  | true =>
    rw [if_pos rfl, hg]
    exact add_zero _
  | false =>
    rw [if_neg Bool.false_ne_true, parity_zero]
    exact add_zero _

theorem parity_remainder {g : BitVec (n + 1)} (hg : parity g = 1) (bits : List Bool) :
    parity (remainder g bits) = (bits.count true : ZMod 2) := by
  have hone : parity 1#(n + 1) = 1 := by
    have hrest : ∑ i : Fin n, bitValue ((1#(n + 1)).getLsbD i.succ) = 0 :=
      Finset.sum_eq_zero fun i _ => by simp [bitValue]
    rw [parity, Fin.sum_univ_succ, hrest, add_zero]
    simp [bitValue]
  induction bits using List.reverseRecOn with
  | nil => simp
  | append_singleton bits b ih =>
    rw [remainder, List.foldl_append, ← remainder, List.foldl_cons, List.foldl_nil, parity_xor,
      parity_advance hg, ih, List.count_append]
    cases b <;> simp [hone]

/-- A register with an odd number of taps sees every odd number of bits. -/
theorem remainder_ne_zero_of_odd {g : BitVec (n + 1)} (hg : parity g = 1) {bits : List Bool}
    (h : Odd (bits.count true)) : remainder g bits ≠ 0#(n + 1) := by
  intro hzero
  have hparity := parity_remainder hg bits
  rw [hzero, parity_zero, ZMod.natCast_eq_one_iff_odd.mpr h] at hparity
  exact absurd hparity (by decide)

end Parity

end OldRadio.Library
