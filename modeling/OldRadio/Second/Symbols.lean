import OldRadio.Library.Digits

/-!
# Symbol tables and the byte/symbol codec

The second version sends seven data bits in each eight-bit symbol. Up to seven
bytes are gathered little-endian in a 64-bit word and cut into one symbol more
than there are bytes; the receiver gathers up to eight symbols and cuts the word
into one byte less. Symbols that the table does not use decode to negative
numbers, which the receiver's sum takes in sign-extended.
-/

namespace OldRadio.Second

/-! ## The generated tables -/

/-- `symbol_encode`: the symbol of each seven-bit value. -/
def symbolEncodeTable : List UInt8 := [
  0xF7, 0xF6, 0xF5, 0xF4, 0xF3, 0xF2, 0xF1, 0xEF,
  0xEE, 0xED, 0xEC, 0xEB, 0xEA, 0xE9, 0xE7, 0xE6,
  0xE5, 0xE4, 0xE3, 0xE2, 0xDF, 0xDE, 0xDD, 0xDC,
  0xDB, 0xDA, 0xD9, 0xD7, 0xD6, 0xD5, 0xD4, 0xD3,
  0xD2, 0xD1, 0xCF, 0xCE, 0xCD, 0xCC, 0xCB, 0xCA,
  0xC9, 0xC7, 0xC6, 0xC5, 0xBE, 0xBD, 0xBC, 0xBB,
  0xBA, 0xB9, 0xB7, 0xB6, 0xB5, 0xB4, 0xB3, 0xB2,
  0xB1, 0xAF, 0xAE, 0xAD, 0xAC, 0xAB, 0xA9, 0xA7,
  0xA6, 0xA5, 0xA3, 0x9F, 0x9E, 0x9D, 0x9C, 0x9B,
  0x9A, 0x99, 0x97, 0x96, 0x95, 0x93, 0x8F, 0x8E,
  0x8D, 0x8B, 0x7D, 0x7C, 0x7B, 0x7A, 0x79, 0x77,
  0x76, 0x75, 0x74, 0x73, 0x72, 0x71, 0x6F, 0x6E,
  0x6D, 0x6C, 0x6B, 0x6A, 0x69, 0x67, 0x66, 0x65,
  0x63, 0x5F, 0x5E, 0x5D, 0x5C, 0x5B, 0x5A, 0x59,
  0x57, 0x56, 0x53, 0x4F, 0x4E, 0x4D, 0x4B, 0x47,
  0x3E, 0x3D, 0x3C, 0x3B, 0x3A, 0x39, 0x37, 0x36]

/-- `symbol_decode`: the value of each symbol; reserved symbols are `-2`, `-3`
and `-4`, unused ones `-1`. -/
def symbolDecodeTable : List Int := [
  -1, -1, -1, -1, -1, -1, -1, -1, -1, -1, -1, -1, -1, -1, -1, -1,
  -1, -1, -1, -1, -1, -1, -1, -1, -1, -1, -1, -1, -1, -1, -1, -1,
  -1, -1, -1, -1, -1, -1, -1, -1, -1, -1, -1, -1, -1, -1, -1, -1,
  -1, -1, -1, -1, -1, -1, 127, 126, -1, 125, 124, 123, 122, 121, 120, -1,
  -1, -1, -1, -1, -1, -1, -1, 119, -1, -1, -1, 118, -1, 117, 116, 115,
  -1, -1, -1, 114, -1, -2, 113, 112, -1, 111, 110, 109, 108, 107, 106, 105,
  -1, -1, -1, 104, -1, 103, 102, 101, -1, 100, 99, 98, 97, 96, 95, 94,
  -1, 93, 92, 91, 90, 89, 88, 87, -1, 86, 85, 84, 83, 82, -1, -1,
  -1, -1, -1, -1, -1, -1, -1, -1, -1, -1, -1, 81, -1, 80, 79, 78,
  -1, -1, -1, 77, -1, 76, 75, 74, -1, 73, 72, 71, 70, 69, 68, 67,
  -1, -1, -1, 66, -1, 65, 64, 63, -1, 62, -3, 61, 60, 59, 58, 57,
  -1, 56, 55, 54, 53, 52, 51, 50, -1, 49, 48, 47, 46, 45, 44, -1,
  -1, -1, -1, -1, -1, 43, 42, 41, -1, 40, 39, 38, 37, 36, 35, 34,
  -1, 33, 32, 31, 30, 29, 28, 27, -1, 26, 25, 24, 23, 22, 21, 20,
  -1, -1, 19, 18, 17, 16, 15, 14, -1, 13, 12, 11, 10, 9, 8, 7,
  -1, 6, 5, 4, 3, 2, 1, 0, -1, -1, -1, -1, -1, -1, -1, -4]

/-- Reading `symbol_encode`; the packing loop masks the index to seven bits. -/
def symbolEncode (k : Nat) : UInt8 := symbolEncodeTable.getD k 0

/-- Reading `symbol_decode` at a symbol. -/
def symbolDecode (symbol : UInt8) : Int := symbolDecodeTable.getD symbol.toNat 0

/-- `Symbol_Start` is `SYMBOL_RESERVED_0`. -/
def symbolStart : UInt8 := 0x55

/-- `Symbol_End` is `SYMBOL_RESERVED_1`. -/
def symbolEnd : UInt8 := 0xAA

/-- `Symbol_Sync` is `SYMBOL_RESERVED_2`. -/
def symbolSync : UInt8 := 0xFF

/-- `symbol_valid`: the symbol carries data. -/
def symbolValid (symbol : UInt8) : Bool := 0 ≤ symbolDecode symbol

/-! ## The codec as the source computes it -/

/-- The gathering loop of `_b2s` and `_s2b`: `temp += (uint64_t)d << (width * i)`. -/
def gatherFrom (width : Nat) : Nat → UInt64 → List UInt64 → UInt64
  | _, temp, [] => temp
  | i, temp, d :: ds => gatherFrom width (i + 1) (temp + d <<< UInt64.ofNat (width * i)) ds

/-- The gathering loop from `temp = 0`. -/
def gather (width : Nat) (ds : List UInt64) : UInt64 := gatherFrom width 0 0 ds

/-- `_b2s`: pack up to seven bytes into one symbol more. -/
def b2s (bytes : List UInt8) : List UInt8 :=
  if bytes.length = 0 then []
  else
    let temp := gather 8 (bytes.map UInt8.toUInt64)
    (List.range (bytes.length + 1)).map fun i =>
      symbolEncode ((temp >>> UInt64.ofNat (7 * i)) &&& 0x7F).toNat

/-- The loop of `bytes_to_symbols`, seven bytes a turn. -/
def bytesToSymbolsFrom : Nat → List UInt8 → List UInt8
  | 0, _ => []
  | fuel + 1, bytes =>
    if bytes.length = 0 then []
    else b2s (bytes.take 7) ++ bytesToSymbolsFrom fuel (bytes.drop 7)

/-- `bytes_to_symbols`: the symbols written for a byte string. -/
def bytesToSymbols (bytes : List UInt8) : List UInt8 := bytesToSymbolsFrom bytes.length bytes

/-- `_s2b`: unpack up to eight symbols into one byte less. -/
def s2b (symbols : List UInt8) : List UInt8 :=
  if symbols.length < 2 then []
  else
    let temp := gather 7 (symbols.map fun s => UInt64.ofInt (symbolDecode s))
    (List.range (symbols.length - 1)).map fun i =>
      ((temp >>> UInt64.ofNat (8 * i)) &&& 0xFF).toUInt8

/-- The loop of `symbols_to_bytes`, eight symbols a turn; a turn that yields
fewer than seven bytes ends it. -/
def symbolsToBytesFrom : Nat → List UInt8 → List UInt8
  | 0, _ => []
  | fuel + 1, symbols =>
    if symbols.length = 0 then []
    else
      let bytes := s2b (symbols.take 8)
      if bytes.length < 7 then bytes
      else bytes ++ symbolsToBytesFrom fuel (symbols.drop 8)

/-- `symbols_to_bytes`: the bytes written for a symbol string. -/
def symbolsToBytes (symbols : List UInt8) : List UInt8 :=
  symbolsToBytesFrom symbols.length symbols

end OldRadio.Second
