import OldRadio.Library.Lists
import OldRadio.Library.Words
import OldRadio.Second.Symbols

/-!
# The codec in terms of positional numerals

A chunk of at most seven bytes is a base-256 numeral; its symbols are the same
number in base 128. The lemmas here turn the shifting loops into
`fixedDigits`, peel whole chunks off the two outer loops, and prove the two
inverse laws chunk by chunk. A string of symbols is the encoding of its decoded
bytes exactly when it is canonical: valid throughout, not ending in a lone
symbol, and with no slack bit set in a short last chunk.
-/

namespace OldRadio.Second

open Library

/-! ## The gathering loop -/

theorem gatherFrom_eq (width i : Nat) (temp : UInt64) (ds : List UInt64) :
    gatherFrom width i temp ds = gatherWordFrom width i temp ds := by
  induction ds generalizing i temp with
  | nil => rfl
  | cons d ds ih => rw [gatherFrom, gatherWordFrom, ih]

/-- The loop of both directions gathers a word. -/
theorem gather_eq (width : Nat) (ds : List UInt64) : gather width ds = gatherWord width ds :=
  gatherFrom_eq width 0 0 ds

/-! ## One chunk -/

/-- The number a byte string spells in base 256. -/
def bytesValue (bytes : List UInt8) : Nat := Nat.ofDigits 256 (bytes.map UInt8.toNat)

theorem bytesValue_eq (bytes : List UInt8) : bytesValue bytes = bytesNumber bytes := rfl

theorem bytesValue_lt (bytes : List UInt8) : bytesValue bytes < 256 ^ bytes.length :=
  bytesNumber_lt bytes

/-- `_b2s` writes the chunk's number in base 128, one digit more than bytes. -/
theorem b2s_eq {bytes : List UInt8} (h0 : bytes ≠ []) (h7 : bytes.length ≤ 7) :
    b2s bytes = (fixedDigits 128 (bytes.length + 1) (bytesValue bytes)).map symbolEncode := by
  have hlen : bytes.length ≠ 0 := fun h => h0 (List.length_eq_zero_iff.mp h)
  simp only [b2s, hlen, if_false, fixedDigits, List.map_map]
  apply List.map_congr_left
  intro i hi
  have hi : i < bytes.length + 1 := List.mem_range.mp hi
  rw [Function.comp_apply, toNat_shiftRight_and (m := 7) (by omega) rfl, gather_eq,
    toNat_gatherWord_bytes (by omega), ← bytesValue_eq, pow_mul]
  rfl

/-- The residues the decoder gathers: a symbol's value as a 64-bit word. -/
def symbolResidue (symbol : UInt8) : Nat := (UInt64.ofInt (symbolDecode symbol)).toNat

/-- `_s2b` writes the chunk's number, modulo the word, in base 256. -/
theorem s2b_eq {symbols : List UInt8} (h2 : 2 ≤ symbols.length) (h8 : symbols.length ≤ 8) :
    s2b symbols = (fixedDigits 256 (symbols.length - 1)
      (Nat.ofDigits 128 (symbols.map symbolResidue))).map UInt8.ofNat := by
  have hfix : fixedDigits 256 (symbols.length - 1)
      (Nat.ofDigits 128 (symbols.map symbolResidue)) =
      fixedDigits 256 (symbols.length - 1)
        (gather 7 (symbols.map fun s => UInt64.ofInt (symbolDecode s))).toNat := by
    apply fixedDigits_congr
    rw [gather_eq, toNat_gatherWord, List.map_map, Nat.mod_mod_of_dvd]
    · rfl
    · rw [show (2 : Nat) ^ 64 = 256 ^ 8 by decide]
      exact Nat.pow_dvd_pow _ (by omega)
    · intro j hj
      rw [List.length_map] at hj
      omega
  have hshort : ¬ symbols.length < 2 := by omega
  rw [hfix]
  simp only [s2b, hshort, if_false, fixedDigits, List.map_map]
  apply List.map_congr_left
  intro i hi
  have hi : i < symbols.length - 1 := List.mem_range.mp hi
  rw [Function.comp_apply, toUInt8_shiftRight_and (by omega)]

@[simp] theorem length_b2s {bytes : List UInt8} (h : bytes ≠ []) :
    (b2s bytes).length = bytes.length + 1 := by
  have hlen : bytes.length ≠ 0 := fun he => h (List.length_eq_zero_iff.mp he)
  simp [b2s, hlen]

@[simp] theorem length_s2b (symbols : List UInt8) :
    (s2b symbols).length = symbols.length - 1 := by
  by_cases h : symbols.length < 2
  · simp only [s2b, h, if_true, List.length_nil]
    omega
  · simp [s2b, h]

/-! ## The outer loops -/

private theorem bytesToSymbolsFrom_fuel (n m : Nat) (bytes : List UInt8)
    (hn : bytes.length ≤ n) (hm : bytes.length ≤ m) :
    bytesToSymbolsFrom n bytes = bytesToSymbolsFrom m bytes := by
  induction n generalizing m bytes with
  | zero =>
    have hnil : bytes = [] := List.length_eq_zero_iff.mp (by omega)
    subst hnil
    cases m <;> rfl
  | succ n ih =>
    by_cases h0 : bytes.length = 0
    · cases m <;> simp [bytesToSymbolsFrom, h0]
    · obtain ⟨m, rfl⟩ : ∃ k, m = k + 1 := ⟨m - 1, by omega⟩
      simp only [bytesToSymbolsFrom, h0, if_false]
      rw [ih m _ (by simp only [List.length_drop]; omega)
        (by simp only [List.length_drop]; omega)]

private theorem symbolsToBytesFrom_fuel (n m : Nat) (symbols : List UInt8)
    (hn : symbols.length ≤ n) (hm : symbols.length ≤ m) :
    symbolsToBytesFrom n symbols = symbolsToBytesFrom m symbols := by
  induction n generalizing m symbols with
  | zero =>
    have hnil : symbols = [] := List.length_eq_zero_iff.mp (by omega)
    subst hnil
    cases m <;> rfl
  | succ n ih =>
    by_cases h0 : symbols.length = 0
    · cases m <;> simp [symbolsToBytesFrom, h0]
    · obtain ⟨m, rfl⟩ : ∃ k, m = k + 1 := ⟨m - 1, by omega⟩
      simp only [symbolsToBytesFrom, h0, if_false]
      rw [ih m _ (by simp only [List.length_drop]; omega)
        (by simp only [List.length_drop]; omega)]

@[simp] theorem bytesToSymbols_nil : bytesToSymbols [] = [] := rfl

/-- A string of at most one chunk is packed in one turn. -/
theorem bytesToSymbols_short {bytes : List UInt8} (h : bytes.length ≤ 7) :
    bytesToSymbols bytes = b2s bytes := by
  cases hn : bytes.length with
  | zero => simp [bytesToSymbols, b2s, hn, bytesToSymbolsFrom]
  | succ n =>
    have hdrop : bytes.drop 7 = [] := List.drop_eq_nil_of_le h
    have hnil : bytesToSymbolsFrom n [] = [] := by cases n <;> rfl
    simp [bytesToSymbols, hn, bytesToSymbolsFrom, List.take_of_length_le h, hdrop, hnil]

/-- A full chunk of seven bytes is packed in front of the rest. -/
theorem bytesToSymbols_append {chunk rest : List UInt8} (h : chunk.length = 7) :
    bytesToSymbols (chunk ++ rest) = b2s chunk ++ bytesToSymbols rest := by
  have hlen : (chunk ++ rest).length = (rest.length + 6) + 1 := by
    rw [List.length_append]; omega
  have hne : ¬ (chunk ++ rest).length = 0 := by omega
  rw [bytesToSymbols, hlen, bytesToSymbolsFrom, if_neg hne, ← h, List.take_left, List.drop_left,
    bytesToSymbols, bytesToSymbolsFrom_fuel _ rest.length rest (by omega) le_rfl]

@[simp] theorem symbolsToBytes_nil : symbolsToBytes [] = [] := rfl

/-- A string shorter than one chunk is unpacked in one turn. -/
theorem symbolsToBytes_short {symbols : List UInt8} (h : symbols.length < 8) :
    symbolsToBytes symbols = s2b symbols := by
  cases hn : symbols.length with
  | zero => simp [symbolsToBytes, s2b, hn, symbolsToBytesFrom]
  | succ n =>
    have hlast : (s2b symbols).length < 7 := by rw [length_s2b]; omega
    simp only [symbolsToBytes, hn, symbolsToBytesFrom, Nat.add_eq_zero_iff, one_ne_zero,
      and_false, if_false, List.take_of_length_le h.le, hlast, if_true]

/-- A full chunk of eight symbols is unpacked in front of the rest. -/
theorem symbolsToBytes_append {chunk rest : List UInt8} (h : chunk.length = 8) :
    symbolsToBytes (chunk ++ rest) = s2b chunk ++ symbolsToBytes rest := by
  have hlen : (chunk ++ rest).length = (rest.length + 7) + 1 := by
    rw [List.length_append]; omega
  have hne : ¬ (chunk ++ rest).length = 0 := by omega
  have hfull : ¬ (s2b chunk).length < 7 := by rw [length_s2b]; omega
  rw [symbolsToBytes, hlen, symbolsToBytesFrom, if_neg hne, ← h, List.take_left, List.drop_left]
  simp only [hfull, if_false]
  rw [symbolsToBytes, symbolsToBytesFrom_fuel _ rest.length rest (by omega) le_rfl]

/-- Each symbol carries one data bit less than a byte: `n` symbols decode to `n - ⌈n / 8⌉` bytes. -/
theorem length_symbolsToBytes (symbols : List UInt8) :
    (symbolsToBytes symbols).length = symbols.length - (symbols.length + 7) / 8 := by
  induction symbols using chunkInduction (k := 8) (by decide) with
  | short l h => rw [symbolsToBytes_short h, length_s2b]; omega
  | full chunk rest h ih =>
    rw [symbolsToBytes_append h, List.length_append, length_s2b, ih, List.length_append]
    omega

/-- `n` bytes encode to `n + ⌈n / 7⌉` symbols. -/
theorem length_bytesToSymbols (bytes : List UInt8) :
    (bytesToSymbols bytes).length = bytes.length + (bytes.length + 6) / 7 := by
  induction bytes using chunkInduction (k := 7) (by decide) with
  | short l h =>
    rw [bytesToSymbols_short h.le]
    rcases eq_or_ne l [] with rfl | hne
    · rfl
    · have hpos := List.length_pos_of_ne_nil hne
      rw [length_b2s hne]
      omega
  | full chunk rest h ih =>
    have hne : chunk ≠ [] := by rintro rfl; simp at h
    rw [bytesToSymbols_append h, List.length_append, length_b2s hne, ih, List.length_append]
    omega

/-! ## The tables are inverse -/

/-- Decoding an encoded value returns it. -/
theorem symbolDecode_symbolEncode : ∀ k < 128, symbolDecode (symbolEncode k) = k := by
  decide +kernel

private theorem symbolTables_valid : ∀ n < 256, symbolValid (UInt8.ofNat n) = true →
    symbolDecode (UInt8.ofNat n) < 128 ∧
      symbolEncode (symbolDecode (UInt8.ofNat n)).toNat = UInt8.ofNat n := by
  decide +kernel

theorem symbolDecode_lt {s : UInt8} (h : symbolValid s = true) : symbolDecode s < 128 := by
  have hs := (symbolTables_valid s.toNat s.toNat_lt (by simpa using h)).1
  simpa using hs

/-- Encoding the value of a valid symbol returns the symbol. -/
theorem symbolEncode_symbolDecode {s : UInt8} (h : symbolValid s = true) :
    symbolEncode (symbolDecode s).toNat = s := by
  have hs := (symbolTables_valid s.toNat s.toNat_lt (by simpa using h)).2
  simpa using hs

theorem symbolValid_symbolEncode {k : Nat} (h : k < 128) : symbolValid (symbolEncode k) = true := by
  simp [symbolValid, symbolDecode_symbolEncode k h]

/-- Sign extension to the word is reduction modulo the word. -/
theorem symbolResidue_emod (s : UInt8) : (symbolResidue s : ℤ) = symbolDecode s % 2 ^ 64 := by
  rw [symbolResidue, UInt64.ofInt, UInt64.toNat_ofNat']
  omega

/-- On a valid symbol the gathered residue is its value. -/
theorem symbolResidue_of_valid {s : UInt8} (h : symbolValid s = true) :
    symbolResidue s = (symbolDecode s).toNat := by
  have h0 : 0 ≤ symbolDecode s := by simpa [symbolValid] using h
  have hlt := symbolDecode_lt h
  have hr := symbolResidue_emod s
  omega

/-! ## Round trips -/

private theorem map_residue_encode {L : List Nat} (h : ∀ d ∈ L, d < 128) :
    (L.map symbolEncode).map symbolResidue = L := by
  rw [List.map_map]
  conv_rhs => rw [← List.map_id L]
  apply List.map_congr_left
  intro d hd
  have hlt := h d hd
  rw [Function.comp_apply, symbolResidue_of_valid (symbolValid_symbolEncode hlt),
    symbolDecode_symbolEncode d hlt]
  rfl

private theorem map_encode_residue {symbols : List UInt8}
    (h : ∀ s ∈ symbols, symbolValid s = true) :
    (symbols.map symbolResidue).map symbolEncode = symbols := by
  rw [List.map_map]
  conv_rhs => rw [← List.map_id symbols]
  apply List.map_congr_left
  intro s hs
  rw [Function.comp_apply, symbolResidue_of_valid (h s hs), symbolEncode_symbolDecode (h s hs)]
  rfl

private theorem residue_lt {symbols : List UInt8} (h : ∀ s ∈ symbols, symbolValid s = true) :
    ∀ d ∈ symbols.map symbolResidue, d < 128 := by
  intro d hd
  obtain ⟨s, hs, rfl⟩ := List.mem_map.mp hd
  have hlt := symbolDecode_lt (h s hs)
  rw [symbolResidue_of_valid (h s hs)]
  omega

/-- Unpacking a packed chunk returns its bytes. -/
theorem s2b_b2s {bytes : List UInt8} (h7 : bytes.length ≤ 7) : s2b (b2s bytes) = bytes := by
  rcases eq_or_ne bytes [] with rfl | hne
  · rfl
  have hpos := List.length_pos_of_ne_nil hne
  have hlen := length_b2s hne
  have hfits : bytesValue bytes < 128 ^ (bytes.length + 1) := by
    refine (bytesValue_lt bytes).trans_le ?_
    rw [show (256 : Nat) = 2 ^ 8 by decide, show (128 : Nat) = 2 ^ 7 by decide, ← pow_mul,
      ← pow_mul]
    exact Nat.pow_le_pow_right (by decide) (by omega)
  rw [s2b_eq (by omega) (by omega), hlen, Nat.add_sub_cancel, b2s_eq hne h7,
    map_residue_encode fun d hd => lt_of_mem_fixedDigits (by decide) hd,
    ofDigits_fixedDigits, Nat.mod_eq_of_lt hfits, bytesValue_eq, map_fixedDigits_bytesNumber]

/-- Symbols written by the packer are data symbols. -/
theorem symbolValid_of_mem_b2s {bytes : List UInt8} {s : UInt8} (hs : s ∈ b2s bytes) :
    symbolValid s = true := by
  by_cases h0 : bytes.length = 0
  · simp [b2s, h0] at hs
  · simp only [b2s, h0, if_false, List.mem_map] at hs
    obtain ⟨i, _, rfl⟩ := hs
    apply symbolValid_symbolEncode
    rw [UInt64.toNat_and]
    exact Nat.lt_of_le_of_lt Nat.and_le_right (by decide)

private theorem b2s_s2b_eq {symbols : List UInt8} (h2 : 2 ≤ symbols.length)
    (h8 : symbols.length ≤ 8) (hv : ∀ s ∈ symbols, symbolValid s = true) :
    b2s (s2b symbols) = symbols ↔
      Nat.ofDigits 128 (symbols.map symbolResidue) < 256 ^ (symbols.length - 1) := by
  have hlen := length_s2b symbols
  have hne : s2b symbols ≠ [] := fun h => by
    rw [h, List.length_nil] at hlen
    omega
  have hdigits := residue_lt hv
  have hval : bytesValue (s2b symbols) =
      Nat.ofDigits 128 (symbols.map symbolResidue) % 256 ^ (symbols.length - 1) := by
    rw [bytesValue, s2b_eq h2 h8, map_toNat_fixedDigits, ofDigits_fixedDigits]
  have hwidth : (s2b symbols).length + 1 = (symbols.map symbolResidue).length := by
    rw [hlen, List.length_map]; omega
  have hbound : Nat.ofDigits 128 (symbols.map symbolResidue) < 128 ^ symbols.length := by
    simpa using Nat.ofDigits_lt_base_pow_length (b := 128) (by decide) hdigits
  rw [b2s_eq hne (by omega), hwidth]
  constructor
  · intro he
    -- Decoding both sides recovers the digits, hence the number below the byte width.
    have hfix := congrArg (List.map symbolResidue) he
    rw [map_residue_encode fun d hd => lt_of_mem_fixedDigits (by decide) hd,
      fixedDigits_eq_iff hdigits, hval] at hfix
    have hmod : Nat.ofDigits 128 (symbols.map symbolResidue) % 256 ^ (symbols.length - 1) <
        256 ^ (symbols.length - 1) := Nat.mod_lt _ (by positivity)
    have hle := Nat.mod_le (Nat.ofDigits 128 (symbols.map symbolResidue) %
      256 ^ (symbols.length - 1)) (128 ^ (symbols.map symbolResidue).length)
    omega
  · intro hlt
    rw [hval, Nat.mod_eq_of_lt hlt, fixedDigits_ofDigits _ hdigits, map_encode_residue hv]

/-- A full chunk of data symbols is the packing of its bytes. -/
theorem b2s_s2b_full {symbols : List UInt8} (h : symbols.length = 8)
    (hv : ∀ s ∈ symbols, symbolValid s = true) : b2s (s2b symbols) = symbols := by
  rw [b2s_s2b_eq (by omega) (by omega) hv, h]
  have hbound := Nat.ofDigits_lt_base_pow_length (b := 128) (by decide) (residue_lt hv)
  rw [List.length_map, h] at hbound
  exact hbound.trans_le (by decide)

/-- A short chunk of data symbols is the packing of its bytes exactly when the
bits above the last byte are clear. -/
theorem b2s_s2b_short {symbols : List UInt8} {last : UInt8} (h8 : symbols.length < 7)
    (hne : symbols ≠ []) (hv : ∀ s ∈ symbols ++ [last], symbolValid s = true) :
    b2s (s2b (symbols ++ [last])) = symbols ++ [last] ↔ symbolDecode last < 2 ^ symbols.length := by
  have hpos := List.length_pos_of_ne_nil hne
  have hlast : symbolValid last = true := hv last (by simp)
  have h0 : 0 ≤ symbolDecode last := by simpa [symbolValid] using hlast
  have hlow : ∀ d ∈ symbols.map symbolResidue, d < 128 :=
    residue_lt fun s hs => hv s (List.mem_append_left _ hs)
  have hpow : (256 : Nat) ^ (symbols.length + 1 - 1) =
      128 ^ (symbols.map symbolResidue).length * 2 ^ symbols.length := by
    rw [Nat.add_sub_cancel, List.length_map, ← mul_pow]
    rfl
  rw [b2s_s2b_eq (by rw [List.length_append, List.length_singleton]; omega)
      (by rw [List.length_append, List.length_singleton]; omega) hv,
    List.length_append, List.length_singleton, hpow, List.map_append, List.map_singleton,
    ofDigits_concat_lt_iff (by decide) hlow, symbolResidue_of_valid hlast]
  zify
  rw [Int.toNat_of_nonneg h0]

/-- The symbols of a byte string are all data symbols. -/
theorem symbolValid_of_mem_bytesToSymbols {bytes : List UInt8} :
    ∀ s ∈ bytesToSymbols bytes, symbolValid s = true := by
  induction bytes using chunkInduction (k := 7) (by decide) with
  | short l h =>
    intro s hs
    rw [bytesToSymbols_short h.le] at hs
    exact symbolValid_of_mem_b2s hs
  | full chunk rest h ih =>
    intro s hs
    rw [bytesToSymbols_append h, List.mem_append] at hs
    exact hs.elim symbolValid_of_mem_b2s (ih s)

/-- Decoding the symbols of a byte string returns the byte string. -/
theorem symbolsToBytes_bytesToSymbols (bytes : List UInt8) :
    symbolsToBytes (bytesToSymbols bytes) = bytes := by
  induction bytes using chunkInduction (k := 7) (by decide) with
  | short l h =>
    have hlen : (b2s l).length < 8 := by
      rcases eq_or_ne l [] with rfl | hne
      · decide
      · rw [length_b2s hne]; omega
    rw [bytesToSymbols_short h.le, symbolsToBytes_short hlen, s2b_b2s h.le]
  | full chunk rest h ih =>
    have hne : chunk ≠ [] := by rintro rfl; simp at h
    rw [bytesToSymbols_append h, symbolsToBytes_append (by rw [length_b2s hne, h]), ih,
      s2b_b2s h.le]

/-- The canonical symbol strings: data symbols only, no lone symbol in the last
group, and no bit set above the last byte of a short group. -/
structure Canonical (symbols : List UInt8) : Prop where
  /-- Every symbol carries data. -/
  valid : ∀ s ∈ symbols, symbolValid s = true
  /-- A group of one symbol would decode to nothing. -/
  no_lone : symbols.length % 8 ≠ 1
  /-- A short group of `r` symbols leaves `r - 1` bits to its last symbol. -/
  no_slack : 2 ≤ symbols.length % 8 → ∀ s, symbols.getLast? = some s →
    symbolDecode s < 2 ^ (symbols.length % 8 - 1)

/-- Putting a full chunk in front adds only the validity of its own symbols. -/
theorem canonical_append_iff {chunk rest : List UInt8} (h : chunk.length = 8) :
    Canonical (chunk ++ rest) ↔ (∀ s ∈ chunk, symbolValid s = true) ∧ Canonical rest := by
  have hmod : (chunk ++ rest).length % 8 = rest.length % 8 := by
    rw [List.length_append, h]; omega
  have hlast : 2 ≤ rest.length % 8 → (chunk ++ rest).getLast? = rest.getLast? := by
    intro h2
    rw [List.getLast?_append]
    cases hr : rest.getLast? with
    | none => rw [List.getLast?_eq_none_iff.mp hr] at h2; simp at h2
    | some s => rfl
  constructor
  · rintro ⟨hv, hl, hs⟩
    rw [hmod] at hl hs
    exact ⟨fun s hm => hv s (List.mem_append_left _ hm),
      fun s hm => hv s (List.mem_append_right _ hm), hl, fun h2 s hm => hs h2 s (hlast h2 ▸ hm)⟩
  · rintro ⟨hc, hv, hl, hs⟩
    refine ⟨fun s hm => (List.mem_append.mp hm).elim (hc s) (hv s), hmod ▸ hl, ?_⟩
    rw [hmod]
    exact fun h2 s hm => hs h2 s ((hlast h2).symm ▸ hm)

/-- One turn of the decoder: a short string is the encoding of its bytes
exactly when it is canonical. -/
theorem b2s_s2b_iff_canonical {symbols : List UInt8} (h : symbols.length < 8) :
    b2s (s2b symbols) = symbols ↔ Canonical symbols := by
  have hmod : symbols.length % 8 = symbols.length := Nat.mod_eq_of_lt h
  rcases List.eq_nil_or_concat symbols with rfl | ⟨init, last, rfl⟩
  · exact ⟨fun _ => ⟨by simp, by simp, by simp⟩, fun _ => rfl⟩
  rw [List.concat_eq_append] at *
  have hlen : (init ++ [last]).length = init.length + 1 := by simp
  rcases eq_or_ne init [] with rfl | hne
  · constructor
    · intro he
      cases he
    · intro hc
      exact absurd rfl hc.no_lone
  · have hpos := List.length_pos_of_ne_nil hne
    constructor
    · intro he
      have hv : ∀ s ∈ init ++ [last], symbolValid s = true := fun s hs =>
        symbolValid_of_mem_b2s (he.symm ▸ hs)
      refine ⟨hv, by omega, fun _ s hs => ?_⟩
      have hslack := (b2s_s2b_short (by omega) hne hv).mp he
      rw [List.getLast?_concat, Option.some.injEq] at hs
      rw [hmod, hlen, Nat.add_sub_cancel, ← hs]
      exact hslack
    · intro hc
      apply (b2s_s2b_short (by omega) hne hc.valid).mpr
      have hslack := hc.no_slack (by omega) last (List.getLast?_concat ..)
      rwa [hmod, hlen, Nat.add_sub_cancel] at hslack

/-- A symbol string is the encoding of its decoded bytes exactly when it is canonical. -/
theorem bytesToSymbols_symbolsToBytes_iff (symbols : List UInt8) :
    bytesToSymbols (symbolsToBytes symbols) = symbols ↔ Canonical symbols := by
  induction symbols using chunkInduction (k := 8) (by decide) with
  | short l h =>
    rw [symbolsToBytes_short h, bytesToSymbols_short (by rw [length_s2b]; omega)]
    exact b2s_s2b_iff_canonical h
  | full chunk rest h ih =>
    have hlen : (s2b chunk).length = 7 := by rw [length_s2b, h]
    have hne : s2b chunk ≠ [] := fun he => by simp [he] at hlen
    rw [symbolsToBytes_append h, bytesToSymbols_append hlen, canonical_append_iff h, ← ih]
    constructor
    · intro he
      obtain ⟨hc, hr⟩ := List.append_inj he (by rw [length_b2s hne, hlen, h])
      exact ⟨fun s hs => symbolValid_of_mem_b2s (hc.symm ▸ hs), hr⟩
    · rintro ⟨hc, hr⟩
      rw [b2s_s2b_full h hc, hr]

/-- The codec is a bijection between byte strings and canonical symbol strings. -/
theorem symbolCodec_bijection :
    (∀ bytes, symbolsToBytes (bytesToSymbols bytes) = bytes) ∧
    ∀ symbols, bytesToSymbols (symbolsToBytes symbols) = symbols ↔
      (∀ s ∈ symbols, symbolValid s = true) ∧ symbols.length % 8 ≠ 1 ∧
        (2 ≤ symbols.length % 8 → ∀ last, symbols.getLast? = some last →
          symbolDecode last < 2 ^ (symbols.length % 8 - 1)) := by
  refine ⟨symbolsToBytes_bytesToSymbols, fun symbols => ?_⟩
  rw [bytesToSymbols_symbolsToBytes_iff]
  exact ⟨fun h => ⟨h.valid, h.no_lone, h.no_slack⟩, fun h => ⟨h.1, h.2.1, h.2.2⟩⟩

end OldRadio.Second
