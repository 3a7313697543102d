import OldRadio.Library.Digits

/-!
# Digits in a 64-bit word

A codec between two bases that are powers of two gathers the digits of one in a
machine word, each shifted to its place, and cuts the digits of the other out of
it. As long as no shift leaves the word, the gathered word is the numeral modulo
the word, and the digits cut out are its fixed digits.
-/

namespace OldRadio.Library

/-- Adding digits to a word, the first one shifted by `width * i`, each by `width` more. -/
def gatherWordFrom (width : Nat) : Nat → UInt64 → List UInt64 → UInt64
  | _, temp, [] => temp
  | i, temp, d :: ds => gatherWordFrom width (i + 1) (temp + d <<< UInt64.ofNat (width * i)) ds

/-- The word of some digits. -/
def gatherWord (width : Nat) (ds : List UInt64) : UInt64 := gatherWordFrom width 0 0 ds

theorem toNat_shiftLeft_of_lt {d : UInt64} {k : Nat} (hk : k < 64) :
    (d <<< UInt64.ofNat k).toNat = 2 ^ k * d.toNat % 2 ^ 64 := by
  have h64 : k % 2 ^ 64 % 64 = k := by omega
  rw [UInt64.toNat_shiftLeft, UInt64.toNat_ofNat', h64, Nat.shiftLeft_eq, Nat.mul_comm]

/-- The word grows by the remaining numeral at its weight, modulo the word. -/
theorem toNat_gatherWordFrom {width i : Nat} {temp : UInt64} {ds : List UInt64}
    (hw : ∀ j, j < i + ds.length → width * j < 64) :
    (gatherWordFrom width i temp ds).toNat =
      (temp.toNat + 2 ^ (width * i) * Nat.ofDigits (2 ^ width) (ds.map UInt64.toNat)) % 2 ^ 64 := by
  induction ds generalizing i temp with
  | nil => simp [gatherWordFrom]
  | cons d ds ih =>
    have hi : width * i < 64 := hw i (by simp)
    have hrest : ∀ j, j < i + 1 + ds.length → width * j < 64 := fun j hj =>
      hw j (by simp only [List.length_cons]; omega)
    rw [gatherWordFrom, ih hrest, UInt64.toNat_add, toNat_shiftLeft_of_lt hi, List.map_cons,
      Nat.ofDigits_cons, Nat.mul_add _ d.toNat, ← Nat.mul_assoc, ← pow_add, ← Nat.mul_succ]
    simp only [Nat.add_mod_mod, Nat.mod_add_mod, Nat.add_assoc, Nat.succ_eq_add_one]

/-- The word is the numeral, modulo the word. -/
theorem toNat_gatherWord {width : Nat} {ds : List UInt64}
    (hw : ∀ j, j < ds.length → width * j < 64) :
    (gatherWord width ds).toNat = Nat.ofDigits (2 ^ width) (ds.map UInt64.toNat) % 2 ^ 64 := by
  rw [gatherWord, toNat_gatherWordFrom (by simpa using hw)]
  simp

/-- A digit is cut out of a word by a shift and a mask. -/
theorem toNat_shiftRight_and {temp mask : UInt64} {k m : Nat} (hk : k < 64)
    (hm : mask.toNat = 2 ^ m - 1) :
    ((temp >>> UInt64.ofNat k) &&& mask).toNat = temp.toNat / 2 ^ k % 2 ^ m := by
  have h64 : k % 2 ^ 64 % 64 = k := by omega
  rw [UInt64.toNat_and, UInt64.toNat_shiftRight, UInt64.toNat_ofNat', h64, hm,
    Nat.and_two_pow_sub_one_eq_mod, Nat.shiftRight_eq_div_pow]

/-! ## Bytes -/

/-- The number that bytes spell in base 256, least significant first. -/
def bytesNumber (bytes : List UInt8) : Nat := Nat.ofDigits 256 (bytes.map UInt8.toNat)

theorem toNat_lt_of_mem_bytes {bytes : List UInt8} {d : Nat} (hd : d ∈ bytes.map UInt8.toNat) :
    d < 256 := by
  obtain ⟨b, _, rfl⟩ := List.mem_map.mp hd
  exact b.toNat_lt

theorem bytesNumber_lt (bytes : List UInt8) : bytesNumber bytes < 256 ^ bytes.length := by
  have h := Nat.ofDigits_lt_base_pow_length (b := 256) (l := bytes.map UInt8.toNat) (by decide)
    fun d hd => toNat_lt_of_mem_bytes hd
  rwa [List.length_map] at h

/-- The fixed digits of the number are the bytes. -/
theorem map_fixedDigits_bytesNumber (bytes : List UInt8) :
    (fixedDigits 256 bytes.length (bytesNumber bytes)).map UInt8.ofNat = bytes := by
  have hback := fixedDigits_ofDigits (bytes.map UInt8.toNat) fun d hd => toNat_lt_of_mem_bytes hd
  rw [List.length_map] at hback
  rw [bytesNumber, hback]
  simp [Function.comp_def]

/-- The digits of bytes that are made of digits. -/
theorem map_toNat_fixedDigits (w n : Nat) :
    ((fixedDigits 256 w n).map UInt8.ofNat).map UInt8.toNat = fixedDigits 256 w n := by
  rw [List.map_map]
  conv_rhs => rw [← List.map_id (fixedDigits 256 w n)]
  apply List.map_congr_left
  intro d hd
  exact UInt8.toNat_ofNat_of_lt' (lt_of_mem_fixedDigits (by decide) hd)

/-- At most eight bytes are gathered whole. -/
theorem toNat_gatherWord_bytes {bytes : List UInt8} (h : bytes.length ≤ 8) :
    (gatherWord 8 (bytes.map UInt8.toUInt64)).toNat = bytesNumber bytes := by
  have hpow : (256 : Nat) ^ bytes.length ≤ 2 ^ 64 :=
    (Nat.pow_le_pow_right (by decide) h).trans (by decide)
  rw [toNat_gatherWord (by simp only [List.length_map]; omega), List.map_map, bytesNumber]
  exact Nat.mod_eq_of_lt ((bytesNumber_lt bytes).trans_le hpow)

/-- A byte is cut out of a word. -/
theorem toUInt8_shiftRight_and {temp : UInt64} {i : Nat} (hi : i < 8) :
    ((temp >>> UInt64.ofNat (8 * i)) &&& 0xFF).toUInt8 =
      UInt8.ofNat (temp.toNat / 256 ^ i % 256) := by
  apply UInt8.toNat_inj.mp
  rw [UInt64.toNat_toUInt8, toNat_shiftRight_and (m := 8) (by omega) rfl, pow_mul]
  exact UInt8.toNat_ofNat'.symm

end OldRadio.Library
