import OldRadio.Library.ShiftRegister
import OldRadio.Second.Radio

/-!
# What the checksum detects

`crc_table` is eight steps of a shift register with the taps `0x1021`, so the
checksum of a buffer with flipped bits differs from the old one by a function of
the flipped bits alone. `crc16_set` stores it low byte first: the register sees
the last two bytes in the other order. An odd number of flipped bits and two
flipped bits are always detected, and a burst of two bytes is, except one at the
border between payload and checksum.
-/

namespace OldRadio.Second

open Library

/-- The taps of the checksum: the polynomial without its leading bit. -/
def crcTaps : BitVec 16 := 0x1021#16

/-- The bits of a byte as the register takes them in. -/
def byteBits (b : UInt8) : List Bool := (List.range 8).map fun i => b.toNat.testBit (7 - i)

/-- The bits of a buffer as the register takes them in. -/
def bufferBits (bytes : List UInt8) : List Bool := bytes.flatMap byteBits

@[simp] theorem length_byteBits (b : UInt8) : (byteBits b).length = 8 := by
  simp [byteBits]

@[simp] theorem bufferBits_append (xs ys : List UInt8) :
    bufferBits (xs ++ ys) = bufferBits xs ++ bufferBits ys := List.flatMap_append

@[simp] theorem bufferBits_singleton (b : UInt8) : bufferBits [b] = byteBits b :=
  List.append_nil _

@[simp] theorem length_bufferBits (bytes : List UInt8) :
    (bufferBits bytes).length = 8 * bytes.length := by
  induction bytes with
  | nil => rfl
  | cons b bytes ih =>
    rw [← List.singleton_append, bufferBits_append, List.length_append, ih, bufferBits_singleton,
      length_byteBits, List.length_append, List.length_singleton]
    omega

theorem bufferBits_replicate_zero (n : Nat) :
    bufferBits (List.replicate n 0) = List.replicate (8 * n) false := by
  induction n with
  | zero => rfl
  | succ n ih =>
    rw [List.replicate_succ, ← List.singleton_append, bufferBits_append, ih, bufferBits_singleton,
      Nat.mul_succ, Nat.add_comm, List.replicate_add]
    rfl

/-! ## The table as a register -/

/-- A byte in a register of sixteen bits. -/
def byteWord (b : UInt8) : BitVec 16 := b.toBitVec.setWidth 16

private theorem crcTable_register : ∀ n < 256,
    (crcTable.getD n 0).toBitVec = (advance crcTaps)^[8] (BitVec.ofNat 16 n <<< 8) := by
  decide +kernel

private theorem register_small : ∀ n < 256,
    (advance crcTaps)^[8] (BitVec.ofNat 16 n) = BitVec.ofNat 16 n <<< 8 := by
  decide +kernel

private theorem register_byte : ∀ n < 256,
    remainder crcTaps (byteBits (UInt8.ofNat n)) = BitVec.ofNat 16 n := by
  decide +kernel

theorem byteWord_eq (b : UInt8) : byteWord b = BitVec.ofNat 16 b.toNat := by
  apply BitVec.eq_of_toNat_eq
  have := b.toNat_lt
  rw [byteWord, BitVec.toNat_setWidth, BitVec.toNat_ofNat]
  rfl

theorem remainder_byteBits (b : UInt8) : remainder crcTaps (byteBits b) = byteWord b := by
  rw [byteWord_eq, ← register_byte b.toNat b.toNat_lt, UInt8.ofNat_toNat]

theorem iterate_advance_byteWord (b : UInt8) :
    (advance crcTaps)^[8] (byteWord b) = byteWord b <<< 8 := by
  rw [byteWord_eq, register_small b.toNat b.toNat_lt]

private theorem getLsbD_lowMask : ∀ i < 16, (0xFF#16).getLsbD i = decide (i < 8) := by
  decide

/-- One byte of the checksum loop is eight steps of the register. -/
theorem crc16Step_toBitVec (crc : UInt16) (b : UInt8) :
    (crc16Step crc b).toBitVec =
      (advance crcTaps)^[8] (crc.toBitVec ^^^ byteWord b <<< 8) := by
  let index : BitVec 16 := (crc.toBitVec >>> 8 ^^^ byteWord b) &&& 0xFF#16
  have hindex : index.toNat < 256 := by
    rw [BitVec.toNat_and]
    exact Nat.and_lt_two_pow _ (by decide : (0xFF#16).toNat < 2 ^ 8)
  have hsplit : crc.toBitVec ^^^ byteWord b <<< 8 = index <<< 8 ^^^ (crc.toBitVec &&& 0xFF#16) := by
    apply BitVec.eq_of_getLsbD_eq
    intro i hi
    have hmask := getLsbD_lowMask i hi
    have hmask' := getLsbD_lowMask (i - 8) (by omega)
    by_cases h8 : i < 8
    · simp [index, h8, hi, hmask]
    · simp only [index, BitVec.getLsbD_xor, BitVec.getLsbD_shiftLeft, hi, h8, decide_true,
        decide_false, Bool.not_false, Bool.true_and, BitVec.getLsbD_and, hmask, hmask',
        BitVec.getLsbD_ushiftRight, Bool.and_false, Bool.xor_false]
      rw [show 8 + (i - 8) = i by omega, show decide (i - 8 < 8) = true by simp; omega,
        Bool.and_true]
  have hlow : (advance crcTaps)^[8] (crc.toBitVec &&& 0xFF#16) = crc.toBitVec <<< 8 := by
    have hlt : (crc.toBitVec &&& 0xFF#16).toNat < 256 := by
      rw [BitVec.toNat_and]
      exact Nat.and_lt_two_pow _ (by decide : (0xFF#16).toNat < 2 ^ 8)
    have hsmall := register_small _ hlt
    rw [BitVec.ofNat_toNat, BitVec.setWidth_eq] at hsmall
    rw [hsmall]
    apply BitVec.eq_of_getLsbD_eq
    intro i hi
    have hmask := getLsbD_lowMask (i - 8) (by omega)
    by_cases h8 : i < 8
    · simp [h8]
    · simp only [BitVec.getLsbD_shiftLeft, BitVec.getLsbD_and, hmask,
        show decide (i - 8 < 8) = true by simp; omega, Bool.and_true]
  have htable := crcTable_register _ hindex
  rw [BitVec.ofNat_toNat, BitVec.setWidth_eq] at htable
  rw [hsplit, iterate_advance_xor, hlow, ← htable]
  rfl

/-! ## Flipped bits -/

/-- A buffer with the bits flipped that are set in a pattern of the same length. -/
def flipBits (bytes errors : List UInt8) : List UInt8 := List.zipWith (· ^^^ ·) bytes errors

/-- The number of bits set in a pattern. -/
def flippedBits (errors : List UInt8) : Nat := (bufferBits errors).count true

theorem flipBits_append {bytes errors bytes' errors' : List UInt8}
    (h : errors.length = bytes.length) :
    flipBits (bytes ++ bytes') (errors ++ errors') =
      flipBits bytes errors ++ flipBits bytes' errors' :=
  List.zipWith_append h.symm

/-- Flipping no bit changes nothing. -/
theorem flipBits_replicate_zero (bytes : List UInt8) :
    flipBits bytes (List.replicate bytes.length 0) = bytes := by
  induction bytes with
  | nil => rfl
  | cons b bytes ih =>
    rw [List.length_cons, List.replicate_succ, flipBits, List.zipWith_cons_cons, ← flipBits, ih,
      UInt8.xor_zero]

theorem byteWord_xor (a b : UInt8) : byteWord (a ^^^ b) = byteWord a ^^^ byteWord b := by
  rw [byteWord, UInt8.toBitVec_xor, BitVec.setWidth_xor]
  rfl

theorem crc16Step_xor (crc crc' : UInt16) (b b' : UInt8) :
    crc16Step (crc ^^^ crc') (b ^^^ b') = crc16Step crc b ^^^ crc16Step crc' b' := by
  apply UInt16.toBitVec_inj.mp
  rw [UInt16.toBitVec_xor, crc16Step_toBitVec, crc16Step_toBitVec, crc16Step_toBitVec,
    ← iterate_advance_xor, UInt16.toBitVec_xor, byteWord_xor, BitVec.shiftLeft_xor_distrib]
  congr 1
  ac_rfl

/-- The checksum of a pattern of flipped bits, from the initial value zero. -/
def crcOfErrors (errors : List UInt8) : UInt16 := errors.foldl crc16Step 0

private theorem foldl_crc16Step_flipBits {bytes errors : List UInt8}
    (h : errors.length = bytes.length) (crc crc' : UInt16) :
    (flipBits bytes errors).foldl crc16Step (crc ^^^ crc') =
      bytes.foldl crc16Step crc ^^^ errors.foldl crc16Step crc' := by
  induction bytes generalizing errors crc crc' with
  | nil =>
    obtain rfl : errors = [] := List.length_eq_zero_iff.mp h
    rfl
  | cons b bytes ih =>
    cases errors with
    | nil => cases h
    | cons e errors =>
      rw [flipBits, List.zipWith_cons_cons, ← flipBits, List.foldl_cons, crc16Step_xor,
        ih (Nat.succ.inj h)]
      rfl

/-- Flipping bits changes the checksum by the checksum of the pattern. -/
theorem crc16_flipBits {bytes errors : List UInt8} (h : errors.length = bytes.length) :
    crc16 (flipBits bytes errors) = crc16 bytes ^^^ crcOfErrors errors := by
  have := foldl_crc16Step_flipBits h 0xFFFF 0
  rwa [UInt16.xor_zero] at this

/-- The checksum of a pattern is its remainder, behind sixteen more steps. -/
theorem crcOfErrors_toBitVec (errors : List UInt8) :
    (crcOfErrors errors).toBitVec =
      (advance crcTaps)^[16] (remainder crcTaps (bufferBits errors)) := by
  induction errors using List.reverseRecOn with
  | nil => exact (iterate_advance_zero crcTaps 16).symm
  | append_singleton errors b ih =>
    rw [crcOfErrors, List.foldl_append, ← crcOfErrors, List.foldl_cons, List.foldl_nil,
      crc16Step_toBitVec, ih, ← iterate_advance_byteWord, bufferBits_append, bufferBits_singleton,
      remainder_append, length_byteBits, remainder_byteBits]
    have hswap : (advance crcTaps)^[16] (remainder crcTaps (bufferBits errors)) =
        (advance crcTaps)^[8] ((advance crcTaps)^[8] (remainder crcTaps (bufferBits errors))) :=
      Function.iterate_add_apply _ 8 8 _
    rw [hswap, ← iterate_advance_xor, ← Function.iterate_add_apply]

/-- The two last bytes as the number that `crc16_check` reads. -/
def trailerWord (low high : UInt8) : UInt16 := low.toUInt16 + (high.toUInt16 <<< 8)

theorem trailerWord_toBitVec (low high : UInt8) :
    (trailerWord low high).toBitVec = byteWord low ^^^ byteWord high <<< 8 := by
  have hdisjoint : byteWord low &&& byteWord high <<< 8 = 0#16 := by
    apply BitVec.eq_of_getLsbD_eq
    intro i hi
    by_cases h8 : i < 8
    · simp [h8]
    · simp [byteWord, BitVec.getLsbD_of_ge low.toBitVec i (by omega)]
  have hadd : (trailerWord low high).toBitVec = byteWord low + byteWord high <<< 8 := rfl
  rw [hadd, BitVec.add_eq_or_of_and_eq_zero _ _ hdisjoint]
  apply BitVec.eq_of_getLsbD_eq
  intro i hi
  have hbit := congrArg (fun v : BitVec 16 => v.getLsbD i) hdisjoint
  simp only [BitVec.getLsbD_and, BitVec.getLsbD_zero] at hbit
  rw [BitVec.getLsbD_or, BitVec.getLsbD_xor]
  revert hbit
  cases (byteWord low).getLsbD i <;> cases (byteWord high <<< 8).getLsbD i <;> decide

theorem trailerWord_xor (low low' high high' : UInt8) :
    trailerWord (low ^^^ low') (high ^^^ high') =
      trailerWord low high ^^^ trailerWord low' high' := by
  apply UInt16.toBitVec_inj.mp
  rw [UInt16.toBitVec_xor]
  simp only [trailerWord_toBitVec, byteWord_xor, BitVec.shiftLeft_xor_distrib]
  ac_rfl

/-- Flipped bits go unseen exactly when they change the checksum as much as they change the two
bytes it is stored in. -/
theorem crc16Check_flipBits {body errors : List UInt8} (h : errors.length = body.length)
    (low high : UInt8) :
    crc16Check (flipBits
        (body ++ [(crc16 body &&& 0xFF).toUInt8, (crc16 body >>> 8).toUInt8])
        (errors ++ [low, high])) = true ↔
      crcOfErrors errors = trailerWord low high := by
  have hword := crc16Check_crc16Set (crc16Set_append body 0 0)
  rw [crc16Check_append, beq_iff_eq, ← trailerWord] at hword
  rw [flipBits_append h]
  change crc16Check (flipBits body errors ++ [_, _]) = true ↔ _
  rw [crc16Check_append, ← trailerWord, trailerWord_xor, ← hword, crc16_flipBits h, beq_iff_eq,
    UInt16.xor_right_inj]

/-- In the register's order: the flipped bits go unseen exactly when their remainder, with the last
two bytes exchanged, is zero. -/
theorem crc16Check_flipBits_remainder {body errors : List UInt8}
    (h : errors.length = body.length) (low high : UInt8) :
    crc16Check (flipBits
        (body ++ [(crc16 body &&& 0xFF).toUInt8, (crc16 body >>> 8).toUInt8])
        (errors ++ [low, high])) = true ↔
      remainder crcTaps (bufferBits (errors ++ [high, low])) = 0#16 := by
  have hpair : bufferBits [high, low] = byteBits high ++ byteBits low := by
    rw [← List.singleton_append, bufferBits_append, bufferBits_singleton, bufferBits_singleton]
  have htrailer : remainder crcTaps (bufferBits [high, low]) = (trailerWord low high).toBitVec := by
    rw [hpair, remainder_append, length_byteBits, remainder_byteBits, remainder_byteBits,
      iterate_advance_byteWord, trailerWord_toBitVec, BitVec.xor_comm]
  rw [crc16Check_flipBits h, bufferBits_append, remainder_append, htrailer, length_bufferBits,
    BitVec.xor_eq_zero_iff, ← UInt16.toBitVec_inj, crcOfErrors_toBitVec]
  rfl

/-- A pattern for a finished buffer: the flips in the payload and in the two bytes of the
checksum. -/
theorem exists_errors_split {bytes out errors : List UInt8} (hset : crc16Set bytes = .ok out)
    (hlen : errors.length = out.length) :
    ∃ body flips low high, errors = flips ++ [low, high] ∧ flips.length = body.length ∧
      body.length + 2 = bytes.length ∧
      out = body ++ [(crc16 body &&& 0xFF).toUInt8, (crc16 body >>> 8).toUInt8] := by
  unfold crc16Set at hset
  split at hset
  · cases hset
  · rename_i hshort
    have hout := Except.ok.inj hset
    have hbody : (bytes.take (bytes.length - 2)).length + 2 = bytes.length := by
      rw [List.length_take]
      simp only [crc16Len] at hshort
      omega
    rw [← hout, List.length_append, List.length_cons, List.length_singleton] at hlen
    have htail : (errors.drop (errors.length - 2)).length = 2 := by
      rw [List.length_drop]
      omega
    obtain ⟨low, high, htail⟩ := List.length_eq_two.mp htail
    refine ⟨_, errors.take (errors.length - 2), low, high, ?_, ?_, hbody, hout.symm⟩
    · rw [← htail, List.take_append_drop]
    · rw [List.length_take]
      omega

/-! ## Scattered bits -/

/-- A step of the register on numbers, which evaluate faster. -/
private def advanceNat (c : Nat) : Nat := 2 * c % 2 ^ 16 ^^^ c / 2 ^ 15 * 0x1021

private theorem toNat_advance (c : BitVec 16) :
    (advance crcTaps c).toNat = advanceNat c.toNat := by
  have hlt := c.isLt
  rw [advance, BitVec.toNat_xor, BitVec.toNat_shiftLeft, Nat.shiftLeft_eq, pow_one, advanceNat,
    Nat.mul_comm c.toNat 2, BitVec.msb_eq_decide]
  congr 1
  by_cases hmsb : 2 ^ 15 ≤ c.toNat
  · rw [if_pos (decide_eq_true hmsb), show c.toNat / 2 ^ 15 = 1 by omega]
    rfl
  · rw [if_neg (by simpa using hmsb), show c.toNat / 2 ^ 15 = 0 by omega]
    rfl

/-- The register holds no single bit at the right end in its next steps. -/
private def staysAway : Nat → Nat → Bool
  | 0, _ => true
  | n + 1, c => c != 1 && staysAway n (advanceNat c)

private theorem iterate_advance_ne_one {n d : Nat} {c : BitVec 16}
    (h : staysAway n c.toNat = true) (hd : d < n) : (advance crcTaps)^[d] c ≠ 1#16 := by
  induction n generalizing c d with
  | zero => omega
  | succ n ih =>
    rw [staysAway, Bool.and_eq_true, bne_iff_ne] at h
    cases d with
    | zero =>
      intro hone
      rw [Function.iterate_zero_apply] at hone
      exact h.1 (by rw [hone]; rfl)
    | succ d =>
      rw [Function.iterate_succ_apply]
      exact ih (by rw [toNat_advance]; exact h.2) (by omega)

/-- A single bit does not return to its place within the length of a frame. -/
theorem crcTaps_period {d : Nat} (hpos : 0 < d) (hd : d < 8 * (radioMtu + crc16Len)) :
    (advance crcTaps)^[d] 1#16 ≠ 1#16 := by
  have haway : staysAway (8 * (radioMtu + crc16Len) - 1) (advance crcTaps 1#16).toNat = true := by
    decide +kernel
  obtain ⟨d, rfl⟩ : ∃ k, d = k + 1 := ⟨d - 1, by omega⟩
  rw [Function.iterate_succ_apply]
  exact iterate_advance_ne_one haway (by omega)

/-- Exchanging the last two bytes does not change how many bits are flipped. -/
theorem flippedBits_swap (errors : List UInt8) (low high : UInt8) :
    (bufferBits (errors ++ [high, low])).count true = flippedBits (errors ++ [low, high]) := by
  have hpair : ∀ a b, (bufferBits [a, b]).count true =
      (byteBits a).count true + (byteBits b).count true := by
    intro a b
    rw [← List.singleton_append, bufferBits_append, bufferBits_singleton, bufferBits_singleton,
      List.count_append]
  rw [flippedBits, bufferBits_append, bufferBits_append, List.count_append, List.count_append,
    hpair, hpair, Nat.add_comm ((byteBits high).count true)]

/-- In a buffer within the MTU whose last two bytes `crc16_set` wrote, two flipped bits and any odd
number of flipped bits are detected. -/
theorem crc16Check_scattered {bytes out errors : List UInt8} (hset : crc16Set bytes = .ok out)
    (hmtu : bytes.length ≤ radioMtu + crc16Len) (hlen : errors.length = out.length)
    (hflips : flippedBits errors = 2 ∨ Odd (flippedBits errors)) :
    crc16Check (flipBits out errors) = false := by
  obtain ⟨body, flips, low, high, rfl, hflen, hbody, rfl⟩ := exists_errors_split hset hlen
  rw [← Bool.not_eq_true, crc16Check_flipBits_remainder hflen]
  rw [← flippedBits_swap] at hflips
  rcases hflips with htwo | hodd
  · apply remainder_ne_zero_of_count_two crcTaps (by decide) ?_ htwo
    intro d hpos hd
    rw [length_bufferBits, List.length_append, hflen] at hd
    exact crcTaps_period hpos (hd.trans_le (Nat.mul_le_mul_left 8 (by simpa [hbody] using hmtu)))
  · exact remainder_ne_zero_of_odd (by decide) hodd

theorem crc16Check_scattered_twoFlips :
    crc16Set [0x31, 0, 0] = .ok [0x31, 0x82, 0xC7] ∧ flippedBits [0x80, 0, 1] = 2 ∧
      crc16Check (flipBits [0x31, 0x82, 0xC7] [0x80, 0, 1]) = false := by
  have hset : crc16Set [0x31, 0, 0] = .ok [0x31, 0x82, 0xC7] := by decide +kernel
  have htwo : flippedBits [0x80, 0, 1] = 2 := by decide
  exact ⟨hset, htwo, crc16Check_scattered hset (by decide) rfl (Or.inl htwo)⟩

/-! ## Bursts -/

/-- All bits of a pattern are in two consecutive bytes. -/
def Burst (errors : List UInt8) : Prop :=
  ∃ p, ∀ (i : Nat) (e : UInt8), errors[i]? = some e → e ≠ 0 → i = p ∨ i = p + 1

/-- A burst is two bytes between zeros. -/
theorem Burst.eq {errors : List UInt8} (h : Burst errors) (hlen : 2 ≤ errors.length) :
    ∃ p q a b, errors = List.replicate p 0 ++ [a, b] ++ List.replicate q 0 := by
  obtain ⟨p, hp⟩ := h
  obtain ⟨start, hstart⟩ : ∃ start, start = min p (errors.length - 2) := ⟨_, rfl⟩
  have hfirst : start < errors.length := by omega
  have hsecond : start + 1 < errors.length := by omega
  have hzero : ∀ i (hi : i < errors.length), i ≠ start → i ≠ start + 1 → errors[i] = 0 := by
    intro i hi hthis hnext
    by_contra hne
    have := hp i _ (List.getElem?_eq_getElem hi) hne
    omega
  refine ⟨start, errors.length - 2 - start, errors[start], errors[start + 1],
    List.ext_getElem (by simp; omega) fun i hi hi' => ?_⟩
  by_cases hbefore : i < start
  · rw [hzero i hi (by omega) (by omega), List.getElem_append_left (by simp; omega),
      List.getElem_append_left (by simpa), List.getElem_replicate]
  · by_cases hinside : i < start + 2
    · rw [List.getElem_append_left (by simpa), List.getElem_append_right (by simpa using hbefore)]
      rcases (show i = start ∨ i = start + 1 by omega) with rfl | rfl
      · simp
      · simp
    · rw [hzero i hi (by omega) (by omega), List.getElem_append_right (by simp; omega),
        List.getElem_replicate]

private theorem crcTable_small : ∀ n < 256, (crcTable.getD n 0).toNat < 256 → n = 0 ∨ n = 0x89 := by
  decide +kernel

private theorem crcOfErrors_zeros (n : Nat) (errors : List UInt8) :
    crcOfErrors (List.replicate n 0 ++ errors) = crcOfErrors errors := by
  apply UInt16.toBitVec_inj.mp
  rw [crcOfErrors_toBitVec, crcOfErrors_toBitVec, bufferBits_append, bufferBits_replicate_zero,
    remainder_replicate_false]

private theorem crcOfErrors_one (a : UInt8) :
    crcOfErrors [a] = crcTable.getD a.toNat 0 := by
  have hindex : (a.toUInt16 &&& 0xff).toNat = a.toNat := by
    rw [UInt16.toNat_and, UInt8.toNat_toUInt16]
    exact (Nat.and_two_pow_sub_one_eq_mod _ 8).trans (Nat.mod_eq_of_lt a.toNat_lt)
  change crc16Step 0 a = _
  simp only [crc16Step, UInt16.zero_shiftRight, UInt16.zero_xor, UInt16.zero_shiftLeft,
    UInt16.xor_zero, hindex]

private theorem trailerWord_eq_zero {low high : UInt8} (h : trailerWord low high = 0) :
    low = 0 ∧ high = 0 := by
  have hnat := congrArg UInt16.toNat h
  have hlow := low.toNat_lt
  have hhigh := high.toNat_lt
  simp only [trailerWord, UInt16.toNat_add, UInt8.toNat_toUInt16, UInt16.toNat_shiftLeft,
    Nat.shiftLeft_eq, UInt16.reduceToNat, Nat.reduceMod, Nat.reducePow] at hnat
  exact ⟨UInt8.toNat_inj.mp (show low.toNat = 0 by omega),
    UInt8.toNat_inj.mp (show high.toNat = 0 by omega)⟩

/-- The one burst that goes unseen: bits of the last payload byte and of the first byte of the
checksum. -/
def unseenBurst (length : Nat) : List UInt8 := List.replicate (length - 3) 0 ++ [0x89, 0xA1, 0]

/-- A burst across the border is seen unless the table holds its second byte at its first. -/
private theorem crcOfErrors_border {n : Nat} {a b : UInt8} (hne : ¬ (a = 0 ∧ b = 0)) :
    crcOfErrors (List.replicate n 0 ++ [a]) = trailerWord b 0 ↔ a = 0x89 ∧ b = 0xA1 := by
  have hword : (trailerWord b 0).toNat = b.toNat := by
    simp [trailerWord]
  rw [crcOfErrors_zeros, crcOfErrors_one]
  constructor
  · intro h
    have hnat := congrArg UInt16.toNat h
    rw [hword] at hnat
    have hb := b.toNat_lt
    rcases crcTable_small a.toNat a.toNat_lt (by omega) with hzero | hcase
    · rw [hzero] at hnat
      exact absurd ⟨UInt8.toNat_inj.mp hzero, UInt8.toNat_inj.mp hnat.symm⟩ hne
    · rw [hcase] at hnat
      exact ⟨UInt8.toNat_inj.mp hcase, UInt8.toNat_inj.mp hnat.symm⟩
  · rintro ⟨rfl, rfl⟩
    decide

/-- A burst with zeros behind it has a remainder. -/
private theorem remainder_burst {p n : Nat} {a b : UInt8} (hne : ¬ (a = 0 ∧ b = 0)) :
    remainder crcTaps
      (bufferBits (List.replicate p 0 ++ [a, b] ++ List.replicate n 0)) ≠ 0#16 := by
  have hpair : bufferBits [a, b] = byteBits a ++ byteBits b := by
    rw [← List.singleton_append, bufferBits_append, bufferBits_singleton, bufferBits_singleton]
  rw [List.append_assoc, bufferBits_append, bufferBits_append, bufferBits_replicate_zero,
    bufferBits_replicate_zero, remainder_replicate_false, hpair]
  apply remainder_append_replicate_false (by decide)
  rw [remainder_append, length_byteBits, remainder_byteBits, remainder_byteBits,
    iterate_advance_byteWord, BitVec.xor_comm, ← trailerWord_toBitVec]
  intro hzero
  exact hne (trailerWord_eq_zero (UInt16.toBitVec_inj.mp hzero)).symm

/-- In a buffer whose last two bytes `crc16_set` wrote, a burst of two bytes goes unseen exactly
when it is the one across the border of payload and checksum. -/
theorem burst_unseen_iff {bytes out errors : List UInt8} (hset : crc16Set bytes = .ok out)
    (hlen : errors.length = out.length) (hburst : Burst errors) (hne : ∃ e ∈ errors, e ≠ 0) :
    crc16Check (flipBits out errors) = true ↔ errors = unseenBurst out.length := by
  obtain ⟨body, flips, low, high, rfl, hflen, hbody, rfl⟩ := exists_errors_split hset hlen
  obtain ⟨p, q, a, b, heq⟩ := hburst.eq (by simp)
  have hab : ¬ (a = 0 ∧ b = 0) := by
    rintro ⟨rfl, rfl⟩
    obtain ⟨e, he, hezero⟩ := hne
    rw [heq] at he
    simp only [List.mem_append, List.mem_replicate, List.mem_cons, List.not_mem_nil, or_false,
      or_self] at he
    rcases he with (⟨-, rfl⟩ | rfl) | ⟨-, rfl⟩ <;> exact hezero rfl
  have hsize := congrArg List.length heq
  simp only [List.length_append, List.length_replicate, List.length_cons, List.length_nil] at hsize
  have hborder : unseenBurst
      (body ++ [(crc16 body &&& 0xFF).toUInt8, (crc16 body >>> 8).toUInt8]).length =
      List.replicate (body.length - 1) 0 ++ [0x89] ++ [0xA1, 0] := by
    rw [unseenBurst, List.append_assoc, List.length_append]
    rfl
  rw [hborder]
  match q with
  | 0 =>
    -- The burst is the checksum itself.
    rw [List.replicate_zero, List.append_nil] at heq
    obtain ⟨rfl, hpair⟩ := List.append_inj' heq rfl
    cases hpair
    have hzeros : crcOfErrors (List.replicate p 0) = 0 := by
      have := crcOfErrors_zeros p []
      rwa [List.append_nil] at this
    rw [crc16Check_flipBits hflen, hzeros]
    refine iff_of_false (fun h => hab (trailerWord_eq_zero h.symm)) fun h => ?_
    have hmem : (0x89 : UInt8) ∈ List.replicate p 0 := by
      rw [(List.append_inj' h rfl).1]
      exact List.mem_append_right _ (List.mem_singleton_self _)
    exact absurd (List.eq_of_mem_replicate hmem) (by decide)
  | 1 =>
    -- The burst is across the border.
    have hsplit : flips ++ [low, high] = (List.replicate p 0 ++ [a]) ++ [b, 0] := by
      rw [heq]
      simp
    obtain ⟨rfl, hpair⟩ := List.append_inj' hsplit rfl
    cases hpair
    rw [crc16Check_flipBits hflen, crcOfErrors_border hab, show body.length - 1 = p by omega]
    simp
  | q + 2 =>
    -- The burst is in the payload.
    have hsplit : flips ++ [low, high] =
        (List.replicate p 0 ++ [a, b] ++ List.replicate q 0) ++ [0, 0] := by
      rw [heq, List.replicate_add, List.append_assoc (List.replicate p 0 ++ [a, b])]
      rfl
    obtain ⟨rfl, hpair⟩ := List.append_inj' hsplit rfl
    cases hpair
    rw [crc16Check_flipBits_remainder hflen, ← hsplit, heq]
    refine iff_of_false (remainder_burst hab) fun h => ?_
    rw [← heq, hsplit] at h
    have := (List.append_inj' h rfl).2
    cases this

theorem length_unseenBurst {n : Nat} (h : 3 ≤ n) : (unseenBurst n).length = n := by
  rw [unseenBurst, List.length_append, List.length_replicate]
  simp only [List.length_cons, List.length_nil]
  omega

theorem burst_unseenBurst (n : Nat) : Burst (unseenBurst n) := by
  refine ⟨n - 3, fun i e he hne => ?_⟩
  rw [unseenBurst, List.getElem?_append, List.length_replicate] at he
  split at he
  · exact absurd (List.eq_of_mem_replicate (List.mem_of_getElem? he)) hne
  · rename_i hi
    obtain ⟨j, rfl⟩ : ∃ j, i = n - 3 + j := ⟨i - (n - 3), by omega⟩
    rw [Nat.add_sub_cancel_left] at he
    match j with
    | 0 => exact Or.inl rfl
    | 1 => exact Or.inr rfl
    | 2 =>
      cases he
      exact absurd rfl hne
    | j + 3 => cases he

theorem exists_ne_zero_unseenBurst (n : Nat) : ∃ e ∈ unseenBurst n, e ≠ 0 :=
  ⟨0x89, by simp [unseenBurst], by decide⟩

/-- In a buffer with a payload whose last two bytes `crc16_set` wrote, every burst of two bytes is
detected but the one across the border of payload and checksum, which never is. -/
theorem crc16Check_burst {bytes out : List UInt8} (hset : crc16Set bytes = .ok out)
    (hpos : crc16Len + 1 ≤ bytes.length) :
    (∀ errors, errors.length = out.length → Burst errors → (∃ e ∈ errors, e ≠ 0) →
      errors ≠ unseenBurst out.length → crc16Check (flipBits out errors) = false) ∧
    crc16Check (flipBits out (unseenBurst out.length)) = true := by
  constructor
  · intro errors hlen hburst hne hother
    rw [← Bool.not_eq_true, burst_unseen_iff hset hlen hburst hne]
    exact hother
  · have hlong : 3 ≤ out.length := by
      rw [crc16Len] at hpos
      unfold crc16Set at hset
      split at hset
      · cases hset
      · rw [← Except.ok.inj hset, List.length_append, List.length_take, List.length_cons,
          List.length_singleton]
        omega
    exact (burst_unseen_iff hset (length_unseenBurst hlong) (burst_unseenBurst _)
      (exists_ne_zero_unseenBurst _)).mpr rfl

theorem crc16Check_burst_oneByte :
    crc16Set [0x31, 0, 0] = .ok [0x31, 0x82, 0xC7] ∧
      crc16Check (flipBits [0x31, 0x82, 0xC7] [0, 0xFF, 0xFF]) = false ∧
      crc16Check (flipBits [0x31, 0x82, 0xC7] [0x89, 0xA1, 0]) = true := by
  have hset : crc16Set [0x31, 0, 0] = .ok [0x31, 0x82, 0xC7] := by decide +kernel
  obtain ⟨hseen, hunseen⟩ := crc16Check_burst hset (by decide)
  refine ⟨hset, hseen [0, 0xFF, 0xFF] rfl ⟨1, fun i e he hne => ?_⟩ ⟨0xFF, by simp, by decide⟩
    (by decide), hunseen⟩
  match i with
  | 0 =>
    cases he
    exact absurd rfl hne
  | 1 => exact Or.inl rfl
  | 2 => exact Or.inr rfl
  | i + 3 => cases he

/-- A burst across the border of payload and checksum goes unseen. -/
theorem crc16Check_burst_unseen :
    ¬ ∀ bytes out errors, crc16Set bytes = .ok out → crc16Len + 1 ≤ bytes.length →
      bytes.length ≤ radioMtu + crc16Len → errors.length = out.length → Burst errors →
      (∃ e ∈ errors, e ≠ 0) → crc16Check (flipBits out errors) = false := by
  intro h
  have hseen := h [0x31, 0, 0] [0x31, 0x82, 0xC7] (unseenBurst 3) (by decide +kernel) (by decide)
    (by decide) rfl (burst_unseenBurst 3) (exists_ne_zero_unseenBurst 3)
  exact absurd hseen (by decide +kernel)

end OldRadio.Second
