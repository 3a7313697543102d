import OldRadio.Library.Digits

/-!
# Packed little-endian records

The layout of packed structures: a fixed number of bytes for each type, fields
one after the other, integers least significant byte first. What is written is
read back, whatever bytes follow.
-/

namespace OldRadio.Library

/-- A type with its packed layout. -/
structure Packed (α : Type) where
  /-- Number of bytes. -/
  size : Nat
  /-- The bytes of a value. -/
  encode : α → List UInt8
  /-- The value that the first bytes of a list spell. -/
  decode : List UInt8 → α
  /-- Every value takes the same number of bytes. -/
  length_encode : ∀ a, (encode a).length = size
  /-- What was written is read back. -/
  decode_encode : ∀ a rest, decode (encode a ++ rest) = a

namespace Packed

attribute [simp] length_encode decode_encode

/-- What was written by itself is read back. -/
@[simp] theorem decode_encode_self {α : Type} (c : Packed α) (a : α) :
    c.decode (c.encode a) = a := by
  rw [← List.append_nil (c.encode a), c.decode_encode]

/-- The number that bytes spell, least significant first. -/
def littleEndian (bytes : List UInt8) : Nat := bytes.foldr (fun b n => b.toNat + 256 * n) 0

theorem littleEndian_digits (w n : Nat) :
    littleEndian ((fixedDigits 256 w n).map UInt8.ofNat) = n % 256 ^ w := by
  rw [← ofDigits_fixedDigits, Nat.ofDigits_eq_foldr, littleEndian, List.foldr_map]
  refine List.foldr_ext _ _ _ fun d hd m => ?_
  have hlt := lt_of_mem_fixedDigits (by decide) hd
  rw [UInt8.toNat_ofNat', Nat.mod_eq_of_lt (by omega)]
  rfl

/-- Unsigned integers of `w` bytes. -/
def unsigned {α : Type} (w : Nat) (ofNat : Nat → α) (toNat : α → Nat)
    (ofNat_toNat : ∀ a, ofNat (toNat a) = a) (toNat_lt : ∀ a, toNat a < 256 ^ w) : Packed α where
  size := w
  encode a := (fixedDigits 256 w (toNat a)).map UInt8.ofNat
  decode bytes := ofNat (littleEndian (bytes.take w))
  length_encode a := by rw [List.length_map, length_fixedDigits]
  decode_encode a rest := by
    rw [List.take_append_of_le_length (by simp), List.take_of_length_le (by simp),
      littleEndian_digits, Nat.mod_eq_of_lt (toNat_lt a), ofNat_toNat]

variable {α β : Type}

/-- One value after another. -/
def prod (c : Packed α) (d : Packed β) : Packed (α × β) where
  size := c.size + d.size
  encode p := c.encode p.1 ++ d.encode p.2
  decode bytes := (c.decode bytes, d.decode (bytes.drop c.size))
  length_encode p := by simp
  decode_encode p rest := by
    rw [List.append_assoc, c.decode_encode,
      List.drop_left' (c.length_encode p.1), d.decode_encode]

/-- The layout of a type that another one represents. -/
def via (c : Packed α) (make : α → β) (take : β → α) (h : ∀ b, make (take b) = b) : Packed β where
  size := c.size
  encode b := c.encode (take b)
  decode bytes := make (c.decode bytes)
  length_encode b := c.length_encode _
  decode_encode b rest := by rw [c.decode_encode, h]

/-- One byte. -/
def uint8 : Packed UInt8 :=
  unsigned 1 UInt8.ofNat UInt8.toNat (fun _ => UInt8.ofNat_toNat) fun a => a.toNat_lt

/-- Two bytes. -/
def uint16 : Packed UInt16 :=
  unsigned 2 UInt16.ofNat UInt16.toNat (fun _ => UInt16.ofNat_toNat) fun a => a.toNat_lt

/-- Four bytes. -/
def uint32 : Packed UInt32 :=
  unsigned 4 UInt32.ofNat UInt32.toNat (fun _ => UInt32.ofNat_toNat) fun a => a.toNat_lt

/-- Eight bytes. -/
def uint64 : Packed UInt64 :=
  unsigned 8 UInt64.ofNat UInt64.toNat (fun _ => UInt64.ofNat_toNat) fun a => a.toNat_lt

/-- Four bytes, in two's complement. -/
def int32 : Packed Int32 := uint32.via UInt32.toInt32 Int32.toUInt32 fun _ => rfl

/-! ## Sequences -/

/-- The bytes of values one after another. -/
def encodeList (c : Packed α) (xs : List α) : List UInt8 := xs.flatMap c.encode

/-- The first `n` values that bytes spell. -/
def decodeList (c : Packed α) (n : Nat) (bytes : List UInt8) : List α :=
  (List.range n).map fun i => c.decode (bytes.drop (i * c.size))

@[simp] theorem length_encodeList (c : Packed α) (xs : List α) :
    (c.encodeList xs).length = xs.length * c.size := by
  simp [encodeList, List.length_flatMap]

@[simp] theorem length_decodeList (c : Packed α) (n : Nat) (bytes : List UInt8) :
    (c.decodeList n bytes).length = n := by
  simp [decodeList]

theorem decodeList_succ (c : Packed α) (n : Nat) (bytes : List UInt8) :
    c.decodeList (n + 1) bytes = c.decode bytes :: c.decodeList n (bytes.drop c.size) := by
  rw [decodeList, List.range_succ_eq_map, List.map_cons, List.map_map, Nat.zero_mul,
    List.drop_zero]
  refine congrArg _ (List.map_congr_left fun i _ => ?_)
  rw [Function.comp_apply, List.drop_drop, Nat.succ_mul, Nat.add_comm]

/-- The values written one after another are read back. -/
theorem decodeList_encodeList (c : Packed α) (xs : List α) (rest : List UInt8) :
    c.decodeList xs.length (c.encodeList xs ++ rest) = xs := by
  induction xs with
  | nil => rfl
  | cons x xs ih =>
    rw [List.length_cons, decodeList_succ, encodeList, List.flatMap_cons, List.append_assoc,
      c.decode_encode, List.drop_left' (c.length_encode x)]
    exact congrArg _ ih

/-- Different sequences of values that take any room are written differently. -/
theorem encodeList_inj {c : Packed α} (hsize : 0 < c.size) {xs ys : List α} :
    c.encodeList xs = c.encodeList ys ↔ xs = ys := by
  refine ⟨fun h => ?_, fun h => by rw [h]⟩
  have hmul := congrArg List.length h
  rw [length_encodeList, length_encodeList] at hmul
  have hlen := Nat.eq_of_mul_eq_mul_right hsize hmul
  have hx := c.decodeList_encodeList xs []
  rw [h, hlen, c.decodeList_encodeList ys []] at hx
  exact hx.symm

theorem decode_drop_encodeList (c : Packed α) (xs : List α) (rest : List UInt8) {i : Nat}
    (hi : i < xs.length) : c.decode ((c.encodeList xs ++ rest).drop (i * c.size)) = xs[i] := by
  have hall := congrArg (fun ys => ys[i]?) (c.decodeList_encodeList xs rest)
  simpa [decodeList, hi] using hall

/-- Values at the positions below `n`, one after another. -/
def array (c : Packed α) (n : Nat) : Packed (Fin n → α) where
  size := n * c.size
  encode v := c.encodeList (List.ofFn v)
  decode bytes i := c.decode (bytes.drop (i * c.size))
  length_encode v := by rw [length_encodeList, List.length_ofFn]
  decode_encode v rest := by
    funext i
    rw [c.decode_drop_encodeList _ _ (by rw [List.length_ofFn]; exact i.isLt), List.getElem_ofFn]

end Packed

end OldRadio.Library
