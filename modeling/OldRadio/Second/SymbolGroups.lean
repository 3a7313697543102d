import OldRadio.Second.Codec

/-!
# Wrong symbols stay in their group

`symbols_to_bytes` turns each group of eight symbols into its seven bytes. A
symbol that is not valid adds a negative multiple of its weight and borrows from
the symbols above it, up to the end of the group; the bits below it, and the
other groups, do not see it.
-/

namespace OldRadio.Second

open Library

/-- The first symbols of a group determine the bytes that lie in their bits. -/
theorem s2b_take {symbols symbols' : List UInt8} {i : Nat}
    (hlen : symbols.length = symbols'.length) (h8 : symbols.length ≤ 8)
    (h : symbols.take i = symbols'.take i) :
    (s2b symbols).take (7 * i / 8) = (s2b symbols').take (7 * i / 8) := by
  by_cases h2 : symbols.length < 2
  · have hnil : ∀ l : List UInt8, l.length < 2 → s2b l = [] := fun l hl =>
      List.length_eq_zero_iff.mp (by rw [length_s2b]; omega)
    rw [hnil symbols h2, hnil symbols' (hlen ▸ h2)]
  · have hvalue : Nat.ofDigits 128 (symbols.map symbolResidue) ≡
        Nat.ofDigits 128 (symbols'.map symbolResidue) [MOD 128 ^ i] :=
      ofDigits_modEq_of_take (by rw [← List.map_take, ← List.map_take, h])
    have hdvd : 256 ^ min (7 * i / 8) (symbols.length - 1) ∣ 128 ^ i := by
      rw [show (256 : Nat) = 2 ^ 8 by decide, show (128 : Nat) = 2 ^ 7 by decide, ← pow_mul,
        ← pow_mul]
      exact Nat.pow_dvd_pow 2 (by omega)
    rw [s2b_eq (by omega) h8, s2b_eq (by omega) (hlen ▸ h8), ← List.map_take, ← List.map_take,
      take_fixedDigits, take_fixedDigits, ← hlen, fixedDigits_congr (hvalue.of_dvd hdvd)]

/-- The first group is decoded by itself, whether it is full or not. -/
theorem symbolsToBytes_first (symbols : List UInt8) :
    symbolsToBytes symbols = s2b (symbols.take 8) ++ symbolsToBytes (symbols.drop 8) := by
  rcases Nat.lt_or_ge symbols.length 8 with hshort | hfull
  · rw [symbolsToBytes_short hshort, List.take_of_length_le hshort.le,
      List.drop_of_length_le hshort.le, symbolsToBytes_nil, List.append_nil]
  · rw [← symbolsToBytes_append (by rw [List.length_take]; omega), List.take_append_drop]

/-- Full groups are decoded apart from what follows them. -/
theorem symbolsToBytes_groups {front rest : List UInt8} {g : Nat} (h : front.length = 8 * g) :
    symbolsToBytes (front ++ rest) = symbolsToBytes front ++ symbolsToBytes rest := by
  induction front using chunkInduction (k := 8) (by decide) generalizing g with
  | short l hl =>
    obtain rfl : l = [] := List.length_eq_zero_iff.mp (by omega)
    rfl
  | full chunk l hchunk ih =>
    rw [List.length_append, hchunk] at h
    rw [List.append_assoc, symbolsToBytes_append hchunk, symbolsToBytes_append hchunk,
      ih (g := g - 1) (by omega), List.append_assoc]

/-- What is wrong in the first group from some symbol on is wrong in its bytes only, from the byte
on that the symbol reaches. -/
theorem symbolsToBytes_firstGroup {symbols symbols' : List UInt8} {i : Nat}
    (hlen : symbols.length = symbols'.length) (hlow : symbols.take i = symbols'.take i)
    (hhigh : symbols.drop 8 = symbols'.drop 8) :
    (symbolsToBytes symbols).take (7 * i / 8) = (symbolsToBytes symbols').take (7 * i / 8) ∧
      (symbolsToBytes symbols).drop 7 = (symbolsToBytes symbols').drop 7 := by
  have hgroup : (symbols.take 8).length = (symbols'.take 8).length := by
    rw [List.length_take, List.length_take, hlen]
  have hbytes : ∀ l : List UInt8, (s2b (l.take 8)).length ≤ 7 := fun l => by
    rw [length_s2b, List.length_take]
    omega
  have htake : (symbols.take 8).take i = (symbols'.take 8).take i := by
    rw [List.take_take, List.take_take, Nat.min_comm, ← List.take_take, hlow, List.take_take]
  rw [symbolsToBytes_first symbols, symbolsToBytes_first symbols', hhigh]
  constructor
  · rw [List.take_append, List.take_append, length_s2b, length_s2b, hgroup,
      s2b_take hgroup (by rw [List.length_take]; omega) htake]
  · rw [List.drop_append, List.drop_append, List.drop_of_length_le (hbytes symbols),
      List.drop_of_length_le (hbytes symbols'), length_s2b, length_s2b, hgroup]

/-- What lies in front of a group has seven bytes for each group before it. -/
theorem symbolsToBytes_atGroup {symbols : List UInt8} {g : Nat} (h : 8 * g ≤ symbols.length) :
    symbolsToBytes symbols =
        symbolsToBytes (symbols.take (8 * g)) ++ symbolsToBytes (symbols.drop (8 * g)) ∧
      (symbolsToBytes (symbols.take (8 * g))).length = 7 * g := by
  have hfront : (symbols.take (8 * g)).length = 8 * g := by
    rw [List.length_take]
    omega
  constructor
  · rw [← symbolsToBytes_groups hfront, List.take_append_drop]
  · rw [length_symbolsToBytes, hfront]
    omega

/-- Two strings of symbols that differ only within group `g`, from its symbol `i` on, decode to the
same number of bytes, and the bytes agree outside the group and before the byte that symbol `i`
reaches. -/
theorem symbolErrors_contained {symbols symbols' : List UInt8} {g i : Nat} (hi : i < 8)
    (hlen : symbols.length = symbols'.length)
    (h : ∀ j, j < 8 * g + i ∨ 8 * g + 8 ≤ j → symbols[j]? = symbols'[j]?) :
    (symbolsToBytes symbols).length = symbols.length - (symbols.length + 7) / 8 ∧
      (symbolsToBytes symbols').length = symbols.length - (symbols.length + 7) / 8 ∧
      ∀ k, k < 7 * g + 7 * i / 8 ∨ 7 * g + 7 ≤ k →
        (symbolsToBytes symbols)[k]? = (symbolsToBytes symbols')[k]? := by
  refine ⟨length_symbolsToBytes symbols, by rw [length_symbolsToBytes symbols', hlen], ?_⟩
  rcases Nat.lt_or_ge symbols.length (8 * g) with hshort | hlong
  · -- The group lies behind the end: the strings are the same.
    have hsame : symbols = symbols' := List.ext_getElem? fun j => by
      rcases Nat.lt_or_ge j (8 * g) with hj | hj
      · exact h j (Or.inl (by omega))
      · rw [List.getElem?_eq_none (by omega), List.getElem?_eq_none (by omega)]
    exact fun k _ => by rw [hsame]
  · have hfront : symbols.take (8 * g) = symbols'.take (8 * g) :=
      take_eq_of_getElem? fun j hj => h j (Or.inl (by omega))
    have hlow : (symbols.drop (8 * g)).take i = (symbols'.drop (8 * g)).take i :=
      take_eq_of_getElem? fun j hj => by
        rw [List.getElem?_drop, List.getElem?_drop]
        exact h _ (Or.inl (by omega))
    have hhigh : (symbols.drop (8 * g)).drop 8 = (symbols'.drop (8 * g)).drop 8 :=
      drop_eq_of_getElem? fun j hj => by
        rw [List.getElem?_drop, List.getElem?_drop]
        exact h _ (Or.inr (by omega))
    obtain ⟨htake, hdrop⟩ := symbolsToBytes_firstGroup
      (by rw [List.length_drop, List.length_drop, hlen]) hlow hhigh
    obtain ⟨hsplit, hbytes⟩ := symbolsToBytes_atGroup hlong
    obtain ⟨hsplit', -⟩ := symbolsToBytes_atGroup (hlen ▸ hlong)
    rw [← hfront] at hsplit'
    intro k hk
    rw [hsplit, hsplit']
    rcases Nat.lt_or_ge k (7 * g) with hbefore | hin
    · rw [List.getElem?_append_left (by omega), List.getElem?_append_left (by omega)]
    · rw [List.getElem?_append_right (by omega), List.getElem?_append_right (by omega), hbytes]
      rcases hk with hk | hk
      · rw [← List.getElem?_take_of_lt (by omega : k - 7 * g < 7 * i / 8), htake,
          List.getElem?_take_of_lt (by omega)]
      · obtain ⟨m, rfl⟩ := Nat.exists_eq_add_of_le hk
        rw [show 7 * g + 7 + m - 7 * g = 7 + m by omega, ← List.getElem?_drop, hdrop,
          List.getElem?_drop]

/-- Fourteen symbols, the sixth of them not valid in one string: the bytes before the fifth and from
the eighth on are the same. -/
theorem symbolErrors_contained_invalid :
    (symbolsToBytes (List.replicate 14 0x41)).length = 14 - (14 + 7) / 8 ∧
      (symbolsToBytes ((List.replicate 14 0x41).set 5 0)).length = 14 - (14 + 7) / 8 ∧
      ∀ k, k < 7 * 0 + 7 * 5 / 8 ∨ 7 * 0 + 7 ≤ k →
        (symbolsToBytes (List.replicate 14 0x41))[k]? =
          (symbolsToBytes ((List.replicate 14 0x41).set 5 0))[k]? :=
  symbolErrors_contained (by decide) (by rw [List.length_set]) fun j hj => by
    rw [List.getElem?_set_ne (by omega)]

end OldRadio.Second
