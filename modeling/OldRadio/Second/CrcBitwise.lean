import OldRadio.Second.CrcErrors

/-!
# The checksum bit by bit

The checksum is defined by a polynomial: a register of sixteen bits takes the
message in one bit at a time, most significant bit of each byte first. The table
holds what eight such steps make of each byte, and by linearity the loop over
the table computes the register.
-/

namespace OldRadio.Second

open Library

/-- One bit of the defining register: polynomial `0x1021`, most significant bit first. -/
def crc16Bit (crc : UInt16) (bit : Bool) : UInt16 :=
  if (crc &&& 0x8000 != 0) != bit then (crc <<< 1) ^^^ 0x1021 else crc <<< 1

/-- The checksum as its polynomial defines it: initial value `0xFFFF`, bits in the order of
the buffer, nothing reflected and nothing folded in at the end. -/
def crc16Bitwise (bytes : List UInt8) : UInt16 := (bufferBits bytes).foldl crc16Bit 0xFFFF

theorem and_top_ne_zero (crc : UInt16) : (crc &&& 0x8000 != 0) = crc.toBitVec.msb := by
  have htop : (crc &&& 0x8000).toBitVec =
      if crc.toBitVec.getLsbD 15 then BitVec.twoPow 16 15 else 0#16 :=
    BitVec.and_twoPow crc.toBitVec 15
  have hmsb : crc.toBitVec.msb = crc.toBitVec.getLsbD 15 := BitVec.msb_eq_getLsbD_last _
  rw [hmsb, Bool.eq_iff_iff, bne_iff_ne, ne_eq, ← UInt16.toBitVec_inj, htop]
  cases crc.toBitVec.getLsbD 15 <;> decide

/-- The defining register is the one that is fed at its top. -/
theorem crc16Bit_toBitVec (crc : UInt16) (bit : Bool) :
    (crc16Bit crc bit).toBitVec = divideBit crcTaps crc.toBitVec bit := by
  rw [crc16Bit, divideBit, and_top_ne_zero]
  cases crc.toBitVec.msb != bit
  · simp
  · rfl

theorem foldl_crc16Bit_toBitVec (bits : List Bool) (crc : UInt16) :
    (bits.foldl crc16Bit crc).toBitVec = bits.foldl (divideBit crcTaps) crc.toBitVec := by
  induction bits generalizing crc with
  | nil => rfl
  | cons bit bits ih => rw [List.foldl_cons, List.foldl_cons, ih, crc16Bit_toBitVec]

private theorem divide_byte : ∀ n < 256,
    (byteBits (UInt8.ofNat n)).foldl (divideBit crcTaps) 0#16 =
      (advance crcTaps)^[8] (BitVec.ofNat 16 n <<< 8) := by
  decide +kernel

/-- One turn of the table loop is the eight bits of its byte. -/
theorem crc16Step_eq (crc : UInt16) (b : UInt8) :
    crc16Step crc b = (byteBits b).foldl crc16Bit crc := by
  apply UInt16.toBitVec_inj.mp
  have hbyte := divide_byte b.toNat b.toNat_lt
  rw [UInt8.ofNat_toNat] at hbyte
  rw [crc16Step_toBitVec, iterate_advance_xor, foldl_crc16Bit_toBitVec, foldl_divideBit, hbyte,
    length_byteBits, byteWord_eq]

/-- The table loop from any value computes the defining register. -/
theorem foldl_crc16Step (bytes : List UInt8) (crc : UInt16) :
    bytes.foldl crc16Step crc = (bufferBits bytes).foldl crc16Bit crc := by
  induction bytes generalizing crc with
  | nil => rfl
  | cons b bytes ih =>
    rw [List.foldl_cons, ih, crc16Step_eq, ← List.singleton_append, bufferBits_append,
      bufferBits_singleton, List.foldl_append]

example : crc16 [0x31, 0x32, 0x33, 0x34, 0x35, 0x36, 0x37, 0x38, 0x39] = 0x29B1 := by
  decide +kernel

/-- `crc16_set` succeeds where the checksum fits and writes over the last two bytes only. -/
theorem crc16Set_eq {bytes : List UInt8} (h : crc16Len ≤ bytes.length) :
    ∃ out, crc16Set bytes = .ok out ∧ out.length = bytes.length ∧
      out.take (bytes.length - 2) = bytes.take (bytes.length - 2) := by
  have hbody : (bytes.take (bytes.length - 2)).length = bytes.length - 2 := by
    rw [List.length_take]
    omega
  refine ⟨_, by rw [crc16Set, if_neg (by omega)], ?_, List.take_left' hbody⟩
  have hlen : 2 ≤ bytes.length := h
  simp only [List.length_append, hbody, List.length_cons, List.length_nil]
  omega

/-- The table-driven checksum is the bitwise one; a buffer with room for it passes the check
once it is set, and only its last two bytes have changed. -/
theorem crc16_eq_crc16Bitwise (bytes : List UInt8) :
    crc16 bytes = crc16Bitwise bytes ∧
      (2 ≤ bytes.length → ∃ out, crc16Set bytes = .ok out ∧ crc16Check out = true ∧
        out.length = bytes.length ∧
        out.take (bytes.length - 2) = bytes.take (bytes.length - 2)) := by
  refine ⟨foldl_crc16Step bytes 0xFFFF, fun h => ?_⟩
  obtain ⟨out, hset, hlen, htake⟩ := crc16Set_eq h
  exact ⟨out, hset, crc16Check_crc16Set hset, hlen, htake⟩

end OldRadio.Second
