import OldRadio.Library.Words

/-!
# Symbol tables and the codec of the first version

`symbols.c` of `radio/serial`. The tables are made when the program is built, so
they are a parameter here; their size selects the width of a symbol, and with it
the sizes of the chunks in which bytes and symbols are converted.
-/

namespace OldRadio.First

open Library

/-- What `symbols.i` defines. -/
structure SymbolTable where
  /-- `SYMBOL_COUNT`. -/
  count : Nat
  /-- `symbols.c needs >= 64 symbols!` -/
  enough : 64 ≤ count
  /-- `symbol_encode`. -/
  encode : Nat → UInt8
  /-- `symbol_decode`. -/
  decode : UInt8 → Int
  /-- `SYMBOL_RESERVED_0`, which is `Symbol_Start`. -/
  symbolStart : UInt8
  /-- `SYMBOL_RESERVED_1`, which is `Symbol_End`. -/
  symbolEnd : UInt8
  /-- `SYMBOL_RESERVED_2`, which is `Symbol_Sync`. -/
  symbolSync : UInt8

/-- How a call of `symbols.c` or `send_packet` stops. -/
inductive SymbolAbort where
  /-- `assert(nbytes <= 8)` in `_b2s`. -/
  | nbytes
  /-- `assert(nsym * SYMBOL_BITS < 64)` in `_s2b`. -/
  | nsym
  /-- `assert(data_length <= MAX_PACKET_BYTES)` in `send_packet`. -/
  | dataLength
  deriving DecidableEq, Repr

namespace SymbolTable

variable (t : SymbolTable)

/-- `SYMBOL_BITS`. -/
def bits : Nat := if t.count < 128 then 6 else 7

/-- `SYMBOL_MASK`. -/
def mask : UInt64 := if t.count < 128 then 0x3F else 0x7F

/-- `SYMBOL_CHUNK_SYMS`. -/
def chunkSyms : Nat := if t.count < 128 then 4 else 8

/-- `SYMBOL_CHUNK_BYTES`. -/
def chunkBytes : Nat := if t.count < 128 then 3 else 7

/-- `_b2s`: pack bytes into one symbol more. -/
def b2s (bytes : List UInt8) : Except SymbolAbort (List UInt8) :=
  if bytes.length = 0 then .ok []
  else if 8 < bytes.length then .error .nbytes
  else
    let temp := gatherWord 8 (bytes.map UInt8.toUInt64)
    .ok ((List.range (bytes.length + 1)).map fun i =>
      t.encode ((temp >>> UInt64.ofNat (t.bits * i)) &&& t.mask).toNat)

/-- The loop of `bytes_to_symbols`, a chunk of bytes a turn. -/
def bytesToSymbolsFrom : Nat → List UInt8 → Except SymbolAbort (List UInt8)
  | 0, _ => .ok []
  | fuel + 1, bytes =>
    if bytes.length = 0 then .ok []
    else do
      let symbols ← t.b2s (bytes.take t.chunkBytes)
      let rest ← bytesToSymbolsFrom fuel (bytes.drop t.chunkBytes)
      return symbols ++ rest

/-- `bytes_to_symbols`: the symbols written for a byte string. -/
def bytesToSymbols (bytes : List UInt8) : Except SymbolAbort (List UInt8) :=
  t.bytesToSymbolsFrom bytes.length bytes

/-- `_s2b`: unpack symbols into one byte less. -/
def s2b (symbols : List UInt8) : Except SymbolAbort (List UInt8) :=
  if 64 ≤ symbols.length * t.bits then .error .nsym
  else if symbols.length < 2 then .ok []
  else
    let temp := gatherWord t.bits (symbols.map fun s => UInt64.ofInt (t.decode s))
    .ok ((List.range (symbols.length - 1)).map fun i =>
      ((temp >>> UInt64.ofNat (8 * i)) &&& 0xFF).toUInt8)

/-- The loop of `symbols_to_bytes`, a chunk of symbols a turn; a turn that yields too few bytes for
a chunk ends it. -/
def symbolsToBytesFrom : Nat → List UInt8 → Except SymbolAbort (List UInt8)
  | 0, _ => .ok []
  | fuel + 1, symbols =>
    if symbols.length = 0 then .ok []
    else do
      let bytes ← t.s2b (symbols.take t.chunkSyms)
      if bytes.length < t.chunkBytes then return bytes
      let rest ← symbolsToBytesFrom fuel (symbols.drop t.chunkSyms)
      return bytes ++ rest

/-- `symbols_to_bytes`: the bytes written for a symbol string. -/
def symbolsToBytes (symbols : List UInt8) : Except SymbolAbort (List UInt8) :=
  t.symbolsToBytesFrom symbols.length symbols

/-- `symbol_valid`: the symbol carries data. -/
def symbolValid (symbol : UInt8) : Bool := 0 ≤ t.decode symbol

/-- What `symbols.py` makes: decoding undoes encoding. -/
def Inverse : Prop := ∀ k < 2 ^ t.bits, t.decode (t.encode k) = k

/-- And the marks carry no data, each in its own way. -/
structure Marked : Prop where
  inverse : t.Inverse
  start : t.decode t.symbolStart = -2
  stop : t.decode t.symbolEnd = -3
  sync : t.decode t.symbolSync = -4

end SymbolTable

end OldRadio.First
