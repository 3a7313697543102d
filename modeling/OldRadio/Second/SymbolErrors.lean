import OldRadio.Second.CrcErrors
import OldRadio.Second.RadioLink

/-!
# One wrong symbol

A data symbol holds seven bits of its group, so replacing it by another one
flips bits of a seven-bit field of the decoded bytes. Such a field lies in two
consecutive bytes, and is too narrow for the one burst that the checksum does not
see: the receiver drops the frame, unless the field is slack behind the last byte.
-/

namespace OldRadio.Second

open Library

/-- A pattern of flipped bits, as a little-endian number, is a field of seven bits. -/
def SevenBits (errors : List UInt8) : Prop :=
  ∃ d < 128, ∃ m, errors = (fixedDigits 256 errors.length (d * 2 ^ m)).map UInt8.ofNat

theorem sevenBits_of_digits {d : Nat} (hd : d < 128) (w m : Nat) :
    SevenBits ((fixedDigits 256 w (d * 2 ^ m)).map UInt8.ofNat) :=
  ⟨d, hd, m, by rw [List.length_map, length_fixedDigits]⟩

/-! ## Seven bits in a buffer -/

private theorem pow_256 (k : Nat) : (256 : Nat) ^ k = 2 ^ (8 * k) := by
  rw [show (256 : Nat) = 2 ^ 8 by decide, ← pow_mul]

/-- A field of seven bits lies in two consecutive bytes. -/
theorem SevenBits.burst {errors : List UInt8} (h : SevenBits errors) : Burst errors := by
  obtain ⟨d, hd, m, heq⟩ := h
  refine ⟨m / 8, fun i e he hne => ?_⟩
  rw [heq, List.getElem?_map, Option.map_eq_some_iff] at he
  obtain ⟨digit, hdigit, rfl⟩ := he
  rw [fixedDigits, List.getElem?_map, Option.map_eq_some_iff] at hdigit
  obtain ⟨j, hj, rfl⟩ := hdigit
  obtain ⟨hi, rfl⟩ := List.getElem?_eq_some_iff.mp hj
  rw [List.getElem_range] at hne
  by_contra hout
  apply hne
  rcases Nat.lt_or_ge i (m / 8) with hlow | hhigh
  · -- Below the field every digit is zero.
    have hsplit : d * 2 ^ m = 2 ^ (8 * i) * (256 * (d * 2 ^ (m - 8 * i - 8))) := by
      rw [show m = 8 * i + (8 + (m - 8 * i - 8)) by omega, pow_add, pow_add,
        show 8 * i + (8 + (m - 8 * i - 8)) - 8 * i - 8 = m - 8 * i - 8 by omega]
      ring
    rw [pow_256, hsplit, Nat.mul_div_cancel_left _ (Nat.two_pow_pos _), Nat.mul_mod_right]
    rfl
  · -- Above it the number is exhausted.
    have hlt : d * 2 ^ m < 2 ^ (8 * i) := by
      calc d * 2 ^ m < 2 ^ 7 * 2 ^ m := Nat.mul_lt_mul_of_pos_right hd (Nat.two_pow_pos m)
        _ = 2 ^ (7 + m) := (pow_add 2 7 m).symm
        _ ≤ 2 ^ (8 * i) := Nat.pow_le_pow_right (by decide) (by omega)
    rw [pow_256, Nat.div_eq_of_lt hlt]
    rfl

/-- The burst that the checksum does not see is wider than seven bits. -/
theorem not_sevenBits_unseenBurst {n : Nat} (hn : 3 ≤ n) : ¬ SevenBits (unseenBurst n) := by
  rintro ⟨d, hd, m, heq⟩
  rw [length_unseenBurst hn] at heq
  have hvalue := congrArg (fun errors => Nat.ofDigits 256 (errors.map UInt8.toNat)) heq
  simp only [map_toNat_fixedDigits, ofDigits_fixedDigits] at hvalue
  have hburst : Nat.ofDigits 256 ((unseenBurst n).map UInt8.toNat) =
      256 ^ (n - 3) * 0xA189 := by
    have hzeros : ∀ k, Nat.ofDigits 256 (List.replicate k 0) = 0 := by
      intro k
      induction k with
      | zero => rfl
      | succ k ih => rw [List.replicate_succ, Nat.ofDigits_cons, ih]
    rw [unseenBurst, List.map_append, Nat.ofDigits_append, List.map_replicate,
      List.length_replicate]
    change Nat.ofDigits 256 (List.replicate (n - 3) 0) + _ = _
    rw [hzeros, Nat.zero_add]
    rfl
  rw [hburst] at hvalue
  rw [pow_256, pow_256] at hvalue
  rcases Nat.lt_or_ge (8 * (n - 3)) m with hhigh | hlow
  · -- The field starts above the lowest bit of the burst.
    have hdvd : 2 ^ (8 * (n - 3) + 1) ∣ d * 2 ^ m % 2 ^ (8 * n) := by
      refine (Nat.dvd_mod_iff (Nat.pow_dvd_pow 2 (by omega))).mpr ?_
      exact Dvd.dvd.mul_left (Nat.pow_dvd_pow 2 hhigh) d
    rw [← hvalue, pow_succ] at hdvd
    have := Nat.dvd_of_mul_dvd_mul_left (Nat.two_pow_pos _) hdvd
    omega
  · -- It ends below the highest one.
    have hlt : d * 2 ^ m < 2 ^ (8 * (n - 3)) * 2 ^ 7 := by
      calc d * 2 ^ m < 2 ^ 7 * 2 ^ m := Nat.mul_lt_mul_of_pos_right hd (Nat.two_pow_pos m)
        _ ≤ 2 ^ 7 * 2 ^ (8 * (n - 3)) :=
          Nat.mul_le_mul_left _ (Nat.pow_le_pow_right (by decide) hlow)
        _ = _ := Nat.mul_comm _ _
    have hle := Nat.mod_le (d * 2 ^ m) (2 ^ (8 * n))
    have := Nat.lt_of_mul_lt_mul_left ((hvalue.le.trans hle).trans_lt hlt)
    omega

/-! ## A symbol as seven bits -/

private theorem map_ofNat_zipWith_xor (A B : List Nat) :
    (List.zipWith (· ^^^ ·) A B).map UInt8.ofNat =
      flipBits (A.map UInt8.ofNat) (B.map UInt8.ofNat) := by
  rw [flipBits, List.zipWith_map, List.map_zipWith]
  congr 1
  funext a b
  apply UInt8.toBitVec_inj.mp
  rw [UInt8.toBitVec_xor]
  exact BitVec.ofNat_xor

/-- Replacing a data symbol of a group flips a field of seven bits in its bytes. -/
theorem s2b_set {symbols : List UInt8} {i : Nat} {s s' : UInt8} (h8 : symbols.length ≤ 8)
    (hvalid : ∀ s ∈ symbols, symbolValid s = true) (hs : symbols[i]? = some s)
    (hs' : symbolValid s' = true) :
    ∃ d < 128, s2b (symbols.set i s') = flipBits (s2b symbols)
      ((fixedDigits 256 (symbols.length - 1) (d * 2 ^ (7 * i))).map UInt8.ofNat) := by
  have hresidue : ∀ s, symbolValid s = true → symbolResidue s < 2 ^ 7 := by
    intro s hs
    have hlt := symbolDecode_lt hs
    have heq := symbolResidue_of_valid hs
    omega
  have hsvalid := hvalid s (List.mem_of_getElem? hs)
  refine ⟨symbolResidue s ^^^ symbolResidue s',
    Nat.xor_lt_two_pow (hresidue s hsvalid) (hresidue s' hs'), ?_⟩
  by_cases h2 : symbols.length < 2
  · rw [show symbols.length - 1 = 0 by omega]
    simp [s2b, h2, flipBits]
  · have hset : (symbols.set i s').length = symbols.length := List.length_set
    rw [s2b_eq (by omega) (by omega), s2b_eq (by omega) h8, hset, List.map_set,
      show (128 : Nat) = 2 ^ 7 by decide, show (256 : Nat) = 2 ^ 8 by decide,
      ofDigits_set_xor ?_ (by rw [List.getElem?_map, hs]; rfl) (hresidue s' hs'),
      fixedDigits_xor, map_ofNat_zipWith_xor]
    intro x hx
    obtain ⟨t, ht, rfl⟩ := List.mem_map.mp hx
    exact hresidue t (hvalid t ht)

/-- Replacing a data symbol flips a field of seven bits in the decoded bytes. -/
theorem symbolsToBytes_set {symbols : List UInt8} {k : Nat} {s s' : UInt8}
    (hvalid : ∀ s ∈ symbols, symbolValid s = true) (hs : symbols[k]? = some s)
    (hs' : symbolValid s' = true) :
    ∃ errors, errors.length = (symbolsToBytes symbols).length ∧ SevenBits errors ∧
      symbolsToBytes (symbols.set k s') = flipBits (symbolsToBytes symbols) errors := by
  suffices h : ∃ d < 128, ∃ m, symbolsToBytes (symbols.set k s') =
      flipBits (symbolsToBytes symbols)
        ((fixedDigits 256 (symbolsToBytes symbols).length (d * 2 ^ m)).map UInt8.ofNat) by
    obtain ⟨d, hd, m, h⟩ := h
    exact ⟨_, by rw [List.length_map, length_fixedDigits], sevenBits_of_digits hd _ m, h⟩
  induction symbols using chunkInduction (k := 8) (by decide) generalizing k with
  | short l hl =>
    obtain ⟨d, hd, h⟩ := s2b_set hl.le hvalid hs hs'
    refine ⟨d, hd, 7 * k, ?_⟩
    rw [symbolsToBytes_short (by rwa [List.length_set]), symbolsToBytes_short hl, h, length_s2b]
  | full chunk rest hlen ih =>
    rw [symbolsToBytes_append hlen, List.length_append, length_s2b, hlen]
    by_cases hk : k < 8
    · -- The symbol is in the first group: zeros follow its bytes.
      rw [List.getElem?_append_left (by omega)] at hs
      obtain ⟨d, hd, h⟩ := s2b_set (by omega)
        (fun t ht => hvalid t (List.mem_append_left _ ht)) hs hs'
      refine ⟨d, hd, 7 * k, ?_⟩
      have hlt : d * 2 ^ (7 * k) < 256 ^ 7 := by
        calc d * 2 ^ (7 * k) < 2 ^ 7 * 2 ^ (7 * k) :=
              Nat.mul_lt_mul_of_pos_right hd (Nat.two_pow_pos _)
          _ = 2 ^ (7 + 7 * k) := (pow_add 2 7 (7 * k)).symm
          _ ≤ 256 ^ 7 := by
            rw [pow_256]
            exact Nat.pow_le_pow_right (by decide) (by omega)
      rw [List.set_append_left _ _ (by omega), symbolsToBytes_append (by rwa [List.length_set]), h,
        hlen, fixedDigits_add_of_lt _ _ hlt, List.map_append, flipBits_append (by simp [hlen]),
        List.map_replicate]
      congr 1
      exact (flipBits_replicate_zero _).symm
    · -- It is in a later one: its bytes stay as they are.
      rw [List.getElem?_append_right (by omega)] at hs
      obtain ⟨d, hd, m, h⟩ := ih (fun t ht => hvalid t (List.mem_append_right _ ht)) hs
      refine ⟨d, hd, 56 + m, ?_⟩
      have hpow : d * 2 ^ (56 + m) = 256 ^ 7 * (d * 2 ^ m) := by
        rw [pow_add, pow_256]
        ring
      have hkeep : flipBits (s2b chunk) (List.replicate 7 0) = s2b chunk := by
        have := flipBits_replicate_zero (s2b chunk)
        rwa [length_s2b, hlen] at this
      rw [List.set_append_right _ _ (by omega), symbolsToBytes_append hlen, hpow,
        fixedDigits_pow_mul (by decide), List.map_append, List.map_replicate,
        flipBits_append (by simp [hlen])]
      change s2b chunk ++ _ = flipBits (s2b chunk) (List.replicate 7 0) ++ _
      rw [hkeep, ← h, hlen]

/-! ## A wrong symbol in a frame -/

/-- A frame with one data symbol replaced decodes to its packet or to none. -/
theorem decodeFrame_set {data : List UInt8} (hne : data ≠ []) {k : Nat} {s' : UInt8}
    (hk : k < (frameData data).length) (hs' : symbolValid s' = true) :
    decodeFrame ([symbolStart, symbolStart, symbolSync, symbolSync] ++ (frameData data).set k s') =
        .ok none ∨
      decodeFrame
          ([symbolStart, symbolStart, symbolSync, symbolSync] ++ (frameData data).set k s') =
        .ok (some { refcount := 1, data }) := by
  have hset := crc16Set_append data 0 0
  generalize hout :
    data ++ [(crc16 data &&& 0xFF).toUInt8, (crc16 data >>> 8).toUInt8] = out at hset
  have hdecode : symbolsToBytes (frameData data) = out := by
    rw [frameData, symbolsToBytes_bytesToSymbols, hout]
  have hvalid : ∀ s ∈ (frameData data).set k s', symbolValid s = true := fun s hs =>
    (List.mem_or_eq_of_mem_set hs).elim (symbolValid_of_mem_frameData s) fun h => h ▸ hs'
  obtain ⟨errors, hlen, hseven, hflip⟩ := symbolsToBytes_set symbolValid_of_mem_frameData
    (List.getElem?_eq_getElem hk) hs'
  rw [hdecode] at hlen hflip
  have hbytes : packetBytes ([symbolStart, symbolStart, symbolSync, symbolSync] ++
      (frameData data).set k s') = flipBits out errors := by
    rw [packetBytes, frameSymbols_of_reserved _ _ (by decide +kernel) hvalid, hflip]
  by_cases hzero : ∃ e ∈ errors, e ≠ 0
  · -- Some bit is flipped, and seven bits are too few to go unseen.
    left
    have hlong : 3 ≤ out.length := by
      have := List.length_pos_of_ne_nil hne
      rw [← hout, List.length_append, List.length_cons, List.length_singleton]
      omega
    have hcheck : crc16Check (flipBits out errors) = false := by
      rw [← Bool.not_eq_true, burst_unseen_iff hset hlen hseven.burst hzero]
      intro hunseen
      rw [hunseen] at hseven
      exact not_sevenBits_unseenBurst hlong hseven
    simp only [decodeFrame, hbytes, hcheck]
    rfl
  · -- The symbol differs in bits that no byte takes.
    right
    have hsame : flipBits out errors = out := by
      have hzeros : errors = List.replicate out.length 0 :=
        List.eq_replicate_iff.mpr ⟨hlen, fun e he => by_contra fun hne => hzero ⟨e, he, hne⟩⟩
      rw [hzeros, flipBits_replicate_zero]
    have horiginal := decodeFrame_frameData hne
    have hplain : packetBytes ([symbolStart, symbolStart, symbolSync, symbolSync] ++
        frameData data) = out := by
      rw [packetBytes, frameSymbols_of_reserved _ _ (by decide +kernel)
        symbolValid_of_mem_frameData, hdecode]
    rw [← horiginal]
    simp only [decodeFrame, hbytes, hplain, hsame]

/-- When one data symbol of a frame is replaced by another one, the receiver returns the packet that
was sent or none. -/
theorem wrongSymbol_harmless {packet : Packet} (hpos : 1 ≤ packet.data.length)
    (hmtu : packet.data.length ≤ radioMtu) :
    ∃ frame, radioFrame packet = .ok frame ∧
      ∀ k s', preambleLen + uartsyncLen ≤ k → k + epilogueLen < frame.length →
        symbolValid s' = true → ∀ timeout (port port' : Port) noise garbage,
        symbolStart ∉ noise → port.stream = noise ++ frame.set k s' ++ garbage →
        radioWait timeout port = (true, port') →
        (radioRecv timeout port').1 = .ok none ∨
          (radioRecv timeout port').1 = .ok (some { refcount := 1, data := packet.data }) := by
  have hne : packet.data ≠ [] := by
    intro h
    simp [h] at hpos
  refine ⟨_, radioFrame_eq hmtu, fun k s' hk hk' hs' timeout port port' noise garbage hn hs hwait =>
    ?_⟩
  -- The replaced symbol is one of the data part.
  obtain ⟨j, rfl⟩ : ∃ j, k = 5 + j := ⟨k - 5, by simp only [preambleLen, uartsyncLen] at hk; omega⟩
  have hj : j < (frameData packet.data).length := by
    simp only [epilogueLen, List.length_cons, List.length_append, List.length_nil] at hk'
    omega
  have hset : (symbolStart :: ([symbolStart, symbolStart, symbolSync, symbolSync] ++
      frameData packet.data ++ [symbolEnd, symbolEnd, symbolEnd])).set (5 + j) s' =
      symbolStart :: ([symbolStart, symbolStart, symbolSync, symbolSync] ++
        (frameData packet.data).set j s' ++ [symbolEnd, symbolEnd, symbolEnd]) := by
    rw [show 5 + j = (4 + j) + 1 by omega, List.set_cons_succ, List.append_assoc,
      List.set_append_right _ _ (by simp), List.set_append_left _ _ (by simpa), List.append_assoc]
    simp
  rw [hset] at hs
  -- `radio_wait` stops behind the first start mark, and `radio_recv` finds the rest.
  obtain ⟨noise', hn', hsplit⟩ := radioWait_true hwait
  rw [hs, List.append_assoc, List.cons_append] at hsplit
  obtain ⟨-, hrest⟩ := append_cons_inj_of_first hn hn' hsplit
  have hvalid : ∀ s ∈ (frameData packet.data).set j s', symbolValid s = true := fun s hs =>
    (List.mem_or_eq_of_mem_set hs).elim (symbolValid_of_mem_frameData s) fun h => h ▸ hs'
  have hframe := firstFrame_of_valid hvalid
    (by rw [List.length_set]; exact length_frameData_le hmtu) garbage
  rw [hrest] at hframe
  rcases radioRecv_firstFrame timeout port' with hnone | ⟨recv, hrecv, hdecode⟩
  · exact Or.inl hnone
  · cases hframe.symm.trans hrecv
    rw [hdecode]
    exact decodeFrame_set hne hj hs'

/-- The frame of one byte, its third data symbol replaced. -/
theorem wrongSymbol_harmless_zeroByte :
    radioFrame { refcount := 1, data := [0] } =
        .ok [0x55, 0x55, 0x55, 0xFF, 0xFF, 0xF7, 0x6D, 0xEF, 0xEF, 0xAA, 0xAA, 0xAA] ∧
      ∀ port', radioWait 1000 (promptPort ([1, 2] ++
            [0x55, 0x55, 0x55, 0xFF, 0xFF, 0xF7, 0x6D, 0xF7, 0xEF, 0xAA, 0xAA, 0xAA] ++
            [3]) fun _ => 2) = (true, port') →
        (radioRecv 1000 port').1 = .ok none ∨
          (radioRecv 1000 port').1 = .ok (some { refcount := 1, data := [0] }) := by
  obtain ⟨frame, hframe, hwrong⟩ :=
    @wrongSymbol_harmless { refcount := 1, data := [0] } (by decide) (by decide)
  have hbytes : frame = [0x55, 0x55, 0x55, 0xFF, 0xFF, 0xF7, 0x6D, 0xEF, 0xEF, 0xAA, 0xAA, 0xAA] :=
    Except.ok.inj (hframe.symm.trans (by decide +kernel))
  subst hbytes
  refine ⟨hframe, fun port' hwait => ?_⟩
  exact hwrong 7 0xF7 (by decide) (by decide) (by decide +kernel) 1000 _ port' [1, 2] [3]
    (by decide)
    rfl hwait

end OldRadio.Second
