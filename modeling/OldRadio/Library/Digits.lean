import Mathlib.Data.Nat.Digits.Lemmas
import Mathlib.Data.Int.ModEq

/-!
# Fixed-width positional numerals

`Nat.digits` stops at the leading digit; a codec that moves fixed-width fields
between two bases keeps every position. `fixedDigits b w n` lists exactly `w`
digits, least significant first, and is inverse to `Nat.ofDigits` on the lists
of that width. `signedValue` is the value of a numeral whose digits may be
negative: reduced modulo a common modulus it agrees with the residues' numeral.
-/

namespace OldRadio.Library

/-! ## Natural digits -/

/-- The `w` lowest digits of `n` in base `b`, least significant first. -/
def fixedDigits (b w n : Nat) : List Nat := (List.range w).map fun i => n / b ^ i % b

@[simp] theorem length_fixedDigits (b w n : Nat) : (fixedDigits b w n).length = w := by
  simp [fixedDigits]

@[simp] theorem fixedDigits_zero (b n : Nat) : fixedDigits b 0 n = [] := rfl

/-- Peeling the lowest digit leaves the digits of the quotient. -/
theorem fixedDigits_succ (b w n : Nat) :
    fixedDigits b (w + 1) n = n % b :: fixedDigits b w (n / b) := by
  simp only [fixedDigits, List.range_succ_eq_map, List.map_cons, pow_zero, Nat.div_one,
    List.map_map, List.cons.injEq, true_and]
  apply List.map_congr_left
  intro i _
  simp only [Function.comp_apply, Nat.succ_eq_add_one, pow_succ', Nat.div_div_eq_div_mul]

theorem lt_of_mem_fixedDigits {b w n d : Nat} (hb : 0 < b) (hd : d ∈ fixedDigits b w n) :
    d < b := by
  obtain ⟨i, _, rfl⟩ := List.mem_map.mp hd
  exact Nat.mod_lt _ hb

/-- Reading the fixed digits back keeps the number modulo the width. -/
theorem ofDigits_fixedDigits (b w n : Nat) :
    Nat.ofDigits b (fixedDigits b w n) = n % b ^ w := by
  induction w generalizing n with
  | zero => simp [Nat.mod_one]
  | succ w ih =>
    rw [fixedDigits_succ, Nat.ofDigits_cons, ih, pow_succ', Nat.mod_mul]

/-- Writing a bounded digit list as a number and reading it back loses nothing. -/
theorem fixedDigits_ofDigits {b : Nat} (L : List Nat) (h : ∀ d ∈ L, d < b) :
    fixedDigits b L.length (Nat.ofDigits b L) = L := by
  induction L with
  | nil => rfl
  | cons d L ih =>
    have hd : d < b := h d (List.mem_cons_self ..)
    have hL : ∀ e ∈ L, e < b := fun e he => h e (List.mem_cons_of_mem _ he)
    rw [List.length_cons, fixedDigits_succ, Nat.ofDigits_cons,
      Nat.add_mul_mod_self_left, Nat.mod_eq_of_lt hd,
      Nat.add_mul_div_left _ _ (by omega), Nat.div_eq_of_lt hd, Nat.zero_add, ih hL]

/-- Only the number modulo the width decides its fixed digits. -/
theorem fixedDigits_mod (b w n : Nat) : fixedDigits b w (n % b ^ w) = fixedDigits b w n := by
  rcases Nat.eq_zero_or_pos b with rfl | hb
  · cases w with
    | zero => rfl
    | succ w => simp
  · have h := fixedDigits_ofDigits (fixedDigits b w n)
      (fun d hd => lt_of_mem_fixedDigits (w := w) (n := n) hb hd)
    rwa [length_fixedDigits, ofDigits_fixedDigits] at h

/-- Two numbers with the same residue modulo a multiple of the width have the same digits. -/
theorem fixedDigits_congr {b w m n : Nat} (h : m % b ^ w = n % b ^ w) :
    fixedDigits b w m = fixedDigits b w n := by
  rw [← fixedDigits_mod b w m, h, fixedDigits_mod]

/-- Fewer digits are the first of more. -/
theorem take_fixedDigits (b w n v : Nat) :
    (fixedDigits b w n).take v = fixedDigits b (min v w) n := by
  rw [fixedDigits, ← List.map_take, List.take_range, fixedDigits]

/-- Numerals that agree in their lowest digits agree modulo the weight of the next one. -/
theorem ofDigits_modEq_of_take {b i : Nat} {L M : List Nat} (h : L.take i = M.take i) :
    Nat.ofDigits b L ≡ Nat.ofDigits b M [MOD b ^ i] := by
  induction i generalizing L M with
  | zero => rw [pow_zero]; exact Nat.modEq_one
  | succ i ih =>
    cases L with
    | nil =>
      cases M with
      | nil => rfl
      | cons d M => cases h
    | cons c L =>
      cases M with
      | nil => cases h
      | cons d M =>
        rw [List.take_succ_cons, List.take_succ_cons, List.cons.injEq] at h
        obtain ⟨rfl, htail⟩ := h
        rw [Nat.ofDigits_cons, Nat.ofDigits_cons, pow_succ']
        exact (ih htail).mul_left' b |>.add_left c

/-- A list is the fixed numeral of `n` exactly when its width holds `n` and its value is `n`. -/
theorem fixedDigits_eq_iff {b n : Nat} {L : List Nat} (h : ∀ d ∈ L, d < b) :
    fixedDigits b L.length n = L ↔ n % b ^ L.length = Nat.ofDigits b L := by
  constructor
  · intro he
    rw [← ofDigits_fixedDigits, he]
  · intro he
    rw [← fixedDigits_mod, he, fixedDigits_ofDigits L h]

/-- A numeral with one digit appended fits below `b ^ w * c` exactly when that digit is below
`c`. -/
theorem ofDigits_concat_lt_iff {b c d : Nat} {L : List Nat} (hb : 1 < b) (h : ∀ e ∈ L, e < b) :
    Nat.ofDigits b (L ++ [d]) < b ^ L.length * c ↔ d < c := by
  have hlow : Nat.ofDigits b L < b ^ L.length := Nat.ofDigits_lt_base_pow_length hb h
  rw [Nat.ofDigits_append, Nat.ofDigits_singleton]
  constructor
  · intro hlt
    by_contra hge
    have : b ^ L.length * c ≤ b ^ L.length * d := Nat.mul_le_mul_left _ (by omega)
    omega
  · intro hdc
    have : b ^ L.length * (d + 1) ≤ b ^ L.length * c := Nat.mul_le_mul_left _ (by omega)
    rw [Nat.mul_add, Nat.mul_one] at this
    omega

/-! ## Exclusive or -/

private theorem xor_two_pow_mul_add {k a b d e : Nat} (hd : d < 2 ^ k) (he : e < 2 ^ k) :
    (d + 2 ^ k * a) ^^^ (e + 2 ^ k * b) = (d ^^^ e) + 2 ^ k * (a ^^^ b) := by
  apply Nat.eq_of_testBit_eq
  intro j
  rw [Nat.add_comm d, Nat.add_comm e, Nat.add_comm (d ^^^ e), Nat.testBit_xor,
    Nat.testBit_two_pow_mul_add _ hd, Nat.testBit_two_pow_mul_add _ he,
    Nat.testBit_two_pow_mul_add _ (Nat.xor_lt_two_pow hd he)]
  split <;> rw [Nat.testBit_xor]

/-- Changing one digit of a numeral in a base that is a power of two changes the bits of that digit
only. -/
theorem ofDigits_set_xor {k i d e : Nat} {L : List Nat} (h : ∀ x ∈ L, x < 2 ^ k)
    (hi : L[i]? = some d) (he : e < 2 ^ k) :
    Nat.ofDigits (2 ^ k) (L.set i e) =
      Nat.ofDigits (2 ^ k) L ^^^ (d ^^^ e) * 2 ^ (k * i) := by
  induction L generalizing i with
  | nil => cases hi
  | cons x L ih =>
    have hx : x < 2 ^ k := h x List.mem_cons_self
    cases i with
    | zero =>
      cases hi
      have hcancel : d ^^^ (d ^^^ e) = e := by
        rw [← Nat.xor_assoc, Nat.xor_self, Nat.zero_xor]
      have hset := xor_two_pow_mul_add (a := Nat.ofDigits (2 ^ k) L) (b := 0) hx
        (Nat.xor_lt_two_pow hx he)
      rw [List.set_cons_zero, Nat.ofDigits_cons, Nat.ofDigits_cons, Nat.mul_zero, pow_zero,
        Nat.mul_one]
      rw [Nat.mul_zero, Nat.add_zero, Nat.xor_zero, hcancel] at hset
      exact hset.symm
    | succ i =>
      have hrest := ih (fun y hy => h y (List.mem_cons_of_mem x hy)) hi
      have hset := xor_two_pow_mul_add (a := Nat.ofDigits (2 ^ k) L)
        (b := (d ^^^ e) * 2 ^ (k * i)) hx (Nat.two_pow_pos k)
      rw [List.set_cons_succ, Nat.ofDigits_cons, Nat.ofDigits_cons, hrest]
      rw [Nat.zero_add, Nat.xor_zero] at hset
      rw [← hset]
      congr 1
      ring

/-- The digits of an exclusive or, in a base that is a power of two, are taken one by one. -/
theorem fixedDigits_xor (k w m n : Nat) :
    fixedDigits (2 ^ k) w (m ^^^ n) =
      List.zipWith (· ^^^ ·) (fixedDigits (2 ^ k) w m) (fixedDigits (2 ^ k) w n) := by
  rw [fixedDigits, fixedDigits, fixedDigits, List.zipWith_map, List.zipWith_self]
  apply List.map_congr_left
  intro i _
  rw [← pow_mul, Nat.xor_div_two_pow, Nat.xor_mod_two_pow]

/-- The digits of a multiple of a power of the base start with zeros. -/
theorem fixedDigits_pow_mul {b : Nat} (hb : 0 < b) (v w n : Nat) :
    fixedDigits b (v + w) (b ^ v * n) = List.replicate v 0 ++ fixedDigits b w n := by
  induction v with
  | zero => simp
  | succ v ih =>
    rw [show v + 1 + w = (v + w) + 1 by omega, fixedDigits_succ, pow_succ', Nat.mul_assoc,
      Nat.mul_mod_right, Nat.mul_div_cancel_left _ hb, ih, List.replicate_succ, List.cons_append]

/-- The digits behind the last one of a number are zeros. -/
theorem fixedDigits_add_of_lt {b n : Nat} (v w : Nat) (h : n < b ^ v) :
    fixedDigits b (v + w) n = fixedDigits b v n ++ List.replicate w 0 := by
  induction v generalizing n with
  | zero =>
    obtain rfl : n = 0 := by simpa using h
    rw [Nat.zero_add, fixedDigits_zero, List.nil_append, fixedDigits]
    simp
  | succ v ih =>
    rw [show v + 1 + w = (v + w) + 1 by omega, fixedDigits_succ, fixedDigits_succ,
      ih (Nat.div_lt_of_lt_mul (by rwa [← pow_succ'])), List.cons_append]

/-! ## Signed digits -/

/-- The value of a numeral whose digits may be negative, least significant first. -/
def signedValue (b : ℤ) : List ℤ → ℤ
  | [] => 0
  | d :: ds => d + b * signedValue b ds

@[simp] theorem signedValue_nil (b : ℤ) : signedValue b [] = 0 := rfl

@[simp] theorem signedValue_cons (b d : ℤ) (ds : List ℤ) :
    signedValue b (d :: ds) = d + b * signedValue b ds := rfl

/-- On non-negative digits the signed value is the ordinary one. -/
theorem signedValue_natCast (b : Nat) (L : List Nat) :
    signedValue b (L.map Nat.cast) = Nat.ofDigits b L := by
  induction L with
  | nil => simp
  | cons d L ih => simp [Nat.ofDigits_cons, ih]

/-- Replacing every digit by a congruent one keeps the value modulo the same modulus. -/
theorem signedValue_modEq {b m : ℤ} {f g : α → ℤ} (L : List α)
    (h : ∀ d ∈ L, f d ≡ g d [ZMOD m]) :
    signedValue b (L.map f) ≡ signedValue b (L.map g) [ZMOD m] := by
  induction L with
  | nil => rfl
  | cons d L ih =>
    simp only [List.map_cons, signedValue_cons]
    exact (h d (List.mem_cons_self ..)).add
      ((ih fun e he => h e (List.mem_cons_of_mem _ he)).mul_left b)

end OldRadio.Library
