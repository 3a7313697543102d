import OldRadio.Library.Lists
import OldRadio.First.SerialSymbols

/-!
# The codec of the first version at both widths

A chunk of bytes is a numeral in base 256, and its symbols are the same number in
base 64 or 128. Both chunk sizes are such that one digit more than there are
bytes holds it, and that it fits a machine word. The loops take whole chunks off
the front, so what holds chunk by chunk holds of every string.
-/

namespace OldRadio.First

open Library

namespace SymbolTable

variable {t : SymbolTable}

/-! ## The two widths -/

variable (t) in
/-- The width of a symbol and the chunk of bytes that goes with it. -/
theorem width_cases : (t.bits = 6 ∧ t.chunkBytes = 3) ∨ (t.bits = 7 ∧ t.chunkBytes = 7) := by
  unfold bits chunkBytes
  split
  · exact Or.inl ⟨rfl, rfl⟩
  · exact Or.inr ⟨rfl, rfl⟩

variable (t) in
/-- A chunk has one symbol more than bytes. -/
theorem chunkSyms_eq : t.chunkSyms = t.chunkBytes + 1 := by
  unfold chunkSyms chunkBytes
  split <;> rfl

variable (t) in
theorem chunkBytes_pos : 0 < t.chunkBytes := by
  unfold chunkBytes
  split <;> decide

variable (t) in
theorem mask_toNat : t.mask.toNat = 2 ^ t.bits - 1 := by
  unfold mask bits
  split <;> rfl

/-- The symbols of up to a chunk of bytes have the bits for them. -/
theorem eight_mul_le {n : Nat} (h : n ≤ t.chunkBytes) : 8 * n ≤ t.bits * (n + 1) := by
  rcases t.width_cases with ⟨hb, hc⟩ | ⟨hb, hc⟩
  · rw [hb]
    omega
  · rw [hb]
    omega

/-- The symbols of a chunk fit a machine word. -/
theorem mul_bits_lt {n : Nat} (h : n ≤ t.chunkSyms) : n * t.bits < 64 := by
  rw [chunkSyms_eq] at h
  rcases t.width_cases with ⟨hb, hc⟩ | ⟨hb, hc⟩
  · rw [hb]
    omega
  · rw [hb]
    omega

/-! ## One chunk -/

/-- `_b2s` writes the number of the bytes in the base of the symbols, one digit more than bytes. -/
theorem b2s_eq {bytes : List UInt8} (h0 : bytes ≠ []) (h : bytes.length ≤ t.chunkBytes) :
    t.b2s bytes = .ok ((fixedDigits (2 ^ t.bits) (bytes.length + 1) (bytesNumber bytes)).map
      t.encode) := by
  have hlen : bytes.length ≠ 0 := fun hz => h0 (List.length_eq_zero_iff.mp hz)
  have h7 : bytes.length ≤ 7 := by
    rcases t.width_cases with ⟨-, hc⟩ | ⟨-, hc⟩
    · omega
    · omega
  rw [b2s, if_neg hlen, if_neg (by omega), fixedDigits, List.map_map]
  refine congrArg Except.ok (List.map_congr_left fun i hi => ?_)
  have hshift : t.bits * i < 64 := by
    have hword := mul_bits_lt (t := t) (n := i)
      (by rw [chunkSyms_eq]; have hi := List.mem_range.mp hi; omega)
    rwa [Nat.mul_comm]
  rw [Function.comp_apply, toNat_shiftRight_and hshift t.mask_toNat,
    toNat_gatherWord_bytes (by omega), pow_mul]

variable (t) in
/-- What the receiver gathers of a symbol. -/
def residue (symbol : UInt8) : Nat := (UInt64.ofInt (t.decode symbol)).toNat

/-- `_s2b` writes the number of the symbols, modulo the word, in base 256. -/
theorem s2b_eq {symbols : List UInt8} (h2 : 2 ≤ symbols.length)
    (h : symbols.length ≤ t.chunkSyms) :
    t.s2b symbols = .ok ((fixedDigits 256 (symbols.length - 1)
      (Nat.ofDigits (2 ^ t.bits) (symbols.map t.residue))).map UInt8.ofNat) := by
  have hword := mul_bits_lt h
  have h8 : symbols.length ≤ 8 := by
    rw [chunkSyms_eq] at h
    rcases t.width_cases with ⟨-, hc⟩ | ⟨-, hc⟩
    · omega
    · omega
  have hfix : fixedDigits 256 (symbols.length - 1)
      (Nat.ofDigits (2 ^ t.bits) (symbols.map t.residue)) =
      fixedDigits 256 (symbols.length - 1)
        (gatherWord t.bits (symbols.map fun s => UInt64.ofInt (t.decode s))).toNat := by
    refine fixedDigits_congr ?_
    rw [toNat_gatherWord, List.map_map, Nat.mod_mod_of_dvd]
    · rfl
    · rw [show (2 : Nat) ^ 64 = 256 ^ 8 by decide]
      exact Nat.pow_dvd_pow _ (by omega)
    · intro j hj
      rw [List.length_map] at hj
      rw [Nat.mul_comm]
      exact (Nat.mul_le_mul_right t.bits hj.le).trans_lt hword
  rw [s2b, if_neg (Nat.not_le.mpr hword), if_neg (Nat.not_lt.mpr h2), hfix, fixedDigits,
    List.map_map]
  refine congrArg Except.ok (List.map_congr_left fun i hi => ?_)
  have hi8 : i < 8 := by
    have hi := List.mem_range.mp hi
    omega
  rw [Function.comp_apply, toUInt8_shiftRight_and hi8]

/-- Packing a chunk never fails. -/
theorem b2s_ok {bytes : List UInt8} (h : bytes.length ≤ t.chunkBytes) :
    ∃ symbols, t.b2s bytes = .ok symbols ∧
      symbols.length = if bytes = [] then 0 else bytes.length + 1 := by
  rcases eq_or_ne bytes [] with rfl | hne
  · exact ⟨[], rfl, rfl⟩
  · exact ⟨_, b2s_eq hne h, by rw [List.length_map, length_fixedDigits, if_neg hne]⟩

/-- Unpacking a chunk never fails, whatever the symbols are. -/
theorem s2b_ok {symbols : List UInt8} (h : symbols.length ≤ t.chunkSyms) :
    ∃ bytes, t.s2b symbols = .ok bytes ∧ bytes.length = symbols.length - 1 := by
  by_cases h2 : 2 ≤ symbols.length
  · exact ⟨_, s2b_eq h2 h, by rw [List.length_map, length_fixedDigits]⟩
  · refine ⟨[], ?_, ?_⟩
    · rw [s2b, if_neg (Nat.not_le.mpr (mul_bits_lt h)), if_pos (Nat.not_le.mp h2)]
    · rw [List.length_nil]
      omega

@[simp] theorem s2b_nil : t.s2b [] = .ok [] := by
  rw [s2b, if_neg (by rw [List.length_nil]; omega), if_pos (by decide)]

/-- What is gathered of the symbols of some values are the values. -/
theorem map_residue_encode (ht : t.Inverse) {L : List Nat} (h : ∀ d ∈ L, d < 2 ^ t.bits) :
    (L.map t.encode).map t.residue = L := by
  rw [List.map_map]
  conv_rhs => rw [← List.map_id L]
  refine List.map_congr_left fun d hd => ?_
  have hbits : 2 ^ t.bits ≤ 2 ^ 7 := by
    rcases t.width_cases with ⟨hb, -⟩ | ⟨hb, -⟩
    · rw [hb]
      decide
    · rw [hb]
  have hlt := h d hd
  rw [Function.comp_apply, residue, ht d hlt, UInt64.ofInt, UInt64.toNat_ofNat', id_eq]
  omega

/-- Unpacking a packed chunk returns its bytes. -/
theorem s2b_b2s (ht : t.Inverse) {bytes symbols : List UInt8} (h : bytes.length ≤ t.chunkBytes)
    (hs : t.b2s bytes = .ok symbols) : t.s2b symbols = .ok bytes := by
  rcases eq_or_ne bytes [] with rfl | hne
  · cases hs
    exact s2b_nil
  have hpos := List.length_pos_of_ne_nil hne
  rw [b2s_eq hne h] at hs
  obtain rfl := Except.ok.inj hs
  have hfits : bytesNumber bytes < (2 ^ t.bits) ^ (bytes.length + 1) := by
    refine (bytesNumber_lt bytes).trans_le ?_
    rw [show (256 : Nat) = 2 ^ 8 by decide, ← pow_mul, ← pow_mul]
    exact Nat.pow_le_pow_right (by decide) (eight_mul_le h)
  have hlen : ((fixedDigits (2 ^ t.bits) (bytes.length + 1) (bytesNumber bytes)).map
      t.encode).length = bytes.length + 1 := by
    rw [List.length_map, length_fixedDigits]
  rw [s2b_eq (by omega) (by rw [hlen, chunkSyms_eq]; omega), hlen, Nat.add_sub_cancel,
    map_residue_encode ht fun d hd => lt_of_mem_fixedDigits (Nat.two_pow_pos _) hd,
    ofDigits_fixedDigits, Nat.mod_eq_of_lt hfits, map_fixedDigits_bytesNumber]

/-! ## The outer loops -/

private theorem bytesToSymbolsFrom_fuel {n m : Nat} {bytes : List UInt8}
    (hn : bytes.length ≤ n) (hm : bytes.length ≤ m) :
    t.bytesToSymbolsFrom n bytes = t.bytesToSymbolsFrom m bytes := by
  have hchunk := t.chunkBytes_pos
  induction n generalizing m bytes with
  | zero =>
    obtain rfl : bytes = [] := List.length_eq_zero_iff.mp (by omega)
    cases m <;> rfl
  | succ n ih =>
    by_cases h0 : bytes.length = 0
    · cases m <;> simp [bytesToSymbolsFrom, h0]
    · obtain ⟨m, rfl⟩ : ∃ k, m = k + 1 := ⟨m - 1, by omega⟩
      simp only [bytesToSymbolsFrom, h0, if_false]
      rw [ih (m := m) (by rw [List.length_drop]; omega) (by rw [List.length_drop]; omega)]

private theorem symbolsToBytesFrom_fuel {n m : Nat} {symbols : List UInt8}
    (hn : symbols.length ≤ n) (hm : symbols.length ≤ m) :
    t.symbolsToBytesFrom n symbols = t.symbolsToBytesFrom m symbols := by
  have hchunk := t.chunkSyms_eq
  induction n generalizing m symbols with
  | zero =>
    obtain rfl : symbols = [] := List.length_eq_zero_iff.mp (by omega)
    cases m <;> rfl
  | succ n ih =>
    by_cases h0 : symbols.length = 0
    · cases m <;> simp [symbolsToBytesFrom, h0]
    · obtain ⟨m, rfl⟩ : ∃ k, m = k + 1 := ⟨m - 1, by omega⟩
      simp only [symbolsToBytesFrom, h0, if_false]
      rw [ih (m := m) (by rw [List.length_drop]; omega) (by rw [List.length_drop]; omega)]

/-- A turn that takes a chunk off leaves fuel enough for the rest. -/
private theorem exists_fuel (chunk rest : List UInt8) (h : 0 < chunk.length) :
    ∃ n, (chunk ++ rest).length = n + 1 ∧ rest.length ≤ n := by
  refine ⟨chunk.length - 1 + rest.length, ?_, by omega⟩
  rw [List.length_append]
  omega

/-- A string of at most one chunk is packed in one turn. -/
theorem bytesToSymbols_short {bytes : List UInt8} (h : bytes.length ≤ t.chunkBytes) :
    t.bytesToSymbols bytes = t.b2s bytes := by
  cases hn : bytes.length with
  | zero =>
    obtain rfl := List.length_eq_zero_iff.mp hn
    rfl
  | succ n =>
    obtain ⟨symbols, hok, -⟩ := b2s_ok h
    have hnil : t.bytesToSymbolsFrom n [] = .ok [] := by cases n <;> rfl
    rw [bytesToSymbols, hn, bytesToSymbolsFrom, if_neg (by omega), List.take_of_length_le h,
      List.drop_eq_nil_of_le h, hok, hnil]
    exact congrArg Except.ok (List.append_nil symbols)

/-- A full chunk of bytes is packed in front of the rest. -/
theorem bytesToSymbols_append {chunk rest symbols tail : List UInt8}
    (h : chunk.length = t.chunkBytes) (hs : t.b2s chunk = .ok symbols)
    (htail : t.bytesToSymbols rest = .ok tail) :
    t.bytesToSymbols (chunk ++ rest) = .ok (symbols ++ tail) := by
  have hchunk := t.chunkBytes_pos
  obtain ⟨n, hn, hfuel⟩ := exists_fuel chunk rest (by omega)
  rw [bytesToSymbols, bytesToSymbolsFrom_fuel le_rfl hfuel] at htail
  rw [bytesToSymbols, hn, bytesToSymbolsFrom, if_neg (by omega), ← h, List.take_left,
    List.drop_left, hs, htail]
  rfl

/-- A string shorter than one chunk is unpacked in one turn. -/
theorem symbolsToBytes_short {symbols : List UInt8} (h : symbols.length < t.chunkSyms) :
    t.symbolsToBytes symbols = t.s2b symbols := by
  cases hn : symbols.length with
  | zero =>
    obtain rfl := List.length_eq_zero_iff.mp hn
    rw [s2b_nil]
    rfl
  | succ n =>
    obtain ⟨bytes, hok, hlen⟩ := s2b_ok h.le
    rw [chunkSyms_eq] at h
    rw [symbolsToBytes, hn, symbolsToBytesFrom, if_neg (by omega),
      List.take_of_length_le (by rw [chunkSyms_eq]; omega), hok]
    exact if_pos (by omega)

/-- A full chunk of symbols is unpacked in front of the rest. -/
theorem symbolsToBytes_append {chunk rest bytes tail : List UInt8}
    (h : chunk.length = t.chunkSyms) (hs : t.s2b chunk = .ok bytes)
    (htail : t.symbolsToBytes rest = .ok tail) :
    t.symbolsToBytes (chunk ++ rest) = .ok (bytes ++ tail) := by
  have hchunk := t.chunkSyms_eq
  obtain ⟨n, hn, hfuel⟩ := exists_fuel chunk rest (by omega)
  obtain ⟨bytes', hok, hlen⟩ := s2b_ok h.le
  obtain rfl : bytes' = bytes := Except.ok.inj (hok.symm.trans hs)
  rw [symbolsToBytes, symbolsToBytesFrom_fuel le_rfl hfuel] at htail
  rw [symbolsToBytes, hn, symbolsToBytesFrom, if_neg (by omega), ← h, List.take_left,
    List.drop_left, hs, htail]
  exact if_neg (by omega)

/-! ## Whole strings -/

variable (t) in
/-- Packing never fails, and takes one symbol more than bytes for each chunk, full or not. -/
theorem bytesToSymbols_ok (bytes : List UInt8) : ∃ symbols, t.bytesToSymbols bytes = .ok symbols ∧
    symbols.length = bytes.length + (bytes.length + (t.chunkBytes - 1)) / t.chunkBytes := by
  have hchunk := t.chunkBytes_pos
  induction bytes using chunkInduction hchunk with
  | short l h =>
    obtain ⟨symbols, hok, hlen⟩ := b2s_ok h.le
    refine ⟨symbols, (bytesToSymbols_short h.le).trans hok, ?_⟩
    rw [hlen]
    split
    · rename_i hnil
      subst hnil
      rw [List.length_nil, Nat.zero_add, Nat.div_eq_of_lt (by omega)]
    · rename_i hne
      rw [chunkCount_eq_one (List.length_pos_of_ne_nil hne) h.le]
  | full chunk rest h ih =>
    obtain ⟨symbols, hok, hlen⟩ := b2s_ok h.le
    obtain ⟨tail, htail, hrest⟩ := ih
    have hne : chunk ≠ [] := by
      rintro rfl
      exact hchunk.ne h
    refine ⟨symbols ++ tail, bytesToSymbols_append h hok htail, ?_⟩
    rw [List.length_append, List.length_append, hlen, if_neg hne, hrest, h,
      chunkCount_add hchunk]
    omega

variable (t) in
/-- Unpacking never fails, and yields one byte less than symbols for each chunk, full or not. -/
theorem symbolsToBytes_ok (symbols : List UInt8) :
    ∃ bytes, t.symbolsToBytes symbols = .ok bytes ∧
      bytes.length = symbols.length - (symbols.length + (t.chunkSyms - 1)) / t.chunkSyms := by
  have hchunk : 0 < t.chunkSyms := by
    rw [chunkSyms_eq]
    exact Nat.succ_pos _
  induction symbols using chunkInduction hchunk with
  | short l h =>
    obtain ⟨bytes, hok, hlen⟩ := s2b_ok h.le
    refine ⟨bytes, (symbolsToBytes_short h).trans hok, ?_⟩
    rw [hlen]
    rcases Nat.eq_zero_or_pos l.length with hz | hpos
    · rw [hz, Nat.zero_sub, Nat.zero_sub]
    · rw [chunkCount_eq_one hpos h.le]
  | full chunk rest h ih =>
    obtain ⟨bytes, hok, hlen⟩ := s2b_ok h.le
    obtain ⟨tail, htail, hrest⟩ := ih
    refine ⟨bytes ++ tail, symbolsToBytes_append h hok htail, ?_⟩
    have hle := chunkCount_le hchunk rest.length
    rw [List.length_append, List.length_append, hlen, hrest, h, chunkCount_add hchunk]
    omega

/-- What is packed carries data. -/
theorem symbolValid_of_mem_b2s (ht : t.Inverse) {bytes symbols : List UInt8}
    (h : bytes.length ≤ t.chunkBytes) (hs : t.b2s bytes = .ok symbols) :
    ∀ s ∈ symbols, t.symbolValid s = true := by
  rcases eq_or_ne bytes [] with rfl | hne
  · cases hs
    exact fun s hs => absurd hs List.not_mem_nil
  · rw [b2s_eq hne h] at hs
    obtain rfl := Except.ok.inj hs
    intro s hs
    obtain ⟨k, hk, rfl⟩ := List.mem_map.mp hs
    rw [symbolValid, ht k (lt_of_mem_fixedDigits (Nat.two_pow_pos _) hk)]
    exact decide_eq_true (Int.natCast_nonneg k)

theorem symbolValid_of_mem_bytesToSymbols (ht : t.Inverse) {bytes symbols : List UInt8}
    (hs : t.bytesToSymbols bytes = .ok symbols) : ∀ s ∈ symbols, t.symbolValid s = true := by
  induction bytes using chunkInduction t.chunkBytes_pos generalizing symbols with
  | short l h =>
    rw [bytesToSymbols_short h.le] at hs
    exact symbolValid_of_mem_b2s ht h.le hs
  | full chunk rest h ih =>
    obtain ⟨front, hfront, -⟩ := b2s_ok h.le
    obtain ⟨tail, htail, -⟩ := t.bytesToSymbols_ok rest
    rw [bytesToSymbols_append h hfront htail] at hs
    obtain rfl := Except.ok.inj hs
    intro s hmem
    exact (List.mem_append.mp hmem).elim (symbolValid_of_mem_b2s ht h.le hfront s) (ih htail s)

/-- Unpacking a packed string returns its bytes. -/
theorem symbolsToBytes_bytesToSymbols (ht : t.Inverse) {bytes symbols : List UInt8}
    (hs : t.bytesToSymbols bytes = .ok symbols) : t.symbolsToBytes symbols = .ok bytes := by
  have hchunk := t.chunkBytes_pos
  induction bytes using chunkInduction hchunk generalizing symbols with
  | short l h =>
    rw [bytesToSymbols_short h.le] at hs
    obtain ⟨symbols', hok, hlen⟩ := b2s_ok h.le
    obtain rfl : symbols' = symbols := Except.ok.inj (hok.symm.trans hs)
    have hshort : symbols'.length < t.chunkSyms := by
      rw [hlen, chunkSyms_eq]
      split
      · exact Nat.succ_pos _
      · omega
    rw [symbolsToBytes_short hshort, s2b_b2s ht h.le hs]
  | full chunk rest h ih =>
    obtain ⟨front, hfront, hlen⟩ := b2s_ok h.le
    obtain ⟨tail, htail, -⟩ := t.bytesToSymbols_ok rest
    have hne : chunk ≠ [] := by
      rintro rfl
      exact hchunk.ne h
    rw [bytesToSymbols_append h hfront htail] at hs
    obtain rfl := Except.ok.inj hs
    rw [if_neg hne, h, ← chunkSyms_eq] at hlen
    exact symbolsToBytes_append hlen (s2b_b2s ht h.le hfront) (ih htail)

/-- With tables that are inverse to each other, no assertion fails and every byte string comes
back. -/
theorem symbolCodec_roundTrip (ht : t.Inverse) (bytes : List UInt8) :
    ∃ symbols, t.bytesToSymbols bytes = .ok symbols ∧ t.symbolsToBytes symbols = .ok bytes := by
  obtain ⟨symbols, hok, -⟩ := t.bytesToSymbols_ok bytes
  exact ⟨symbols, hok, symbolsToBytes_bytesToSymbols ht hok⟩

theorem symbolCodec_roundTrip_serial : ∃ symbols,
    serialSymbols.bytesToSymbols [1, 2, 3, 4] = .ok symbols ∧
      serialSymbols.symbolsToBytes symbols = .ok [1, 2, 3, 4] :=
  symbolCodec_roundTrip serialSymbols_inverse [1, 2, 3, 4]

end SymbolTable

end OldRadio.First
