import OldRadio.Library.Lists
import OldRadio.Library.RunPatterns
import OldRadio.Second.LineBits

/-!
# The generator of the symbol tables

`symbols.py`. Of the 256 bytes it keeps those that are not reserved, have an
allowed number of bits set, and match a pattern on the line; it takes as many as
are asked for, from the end with more bits, and prints a table of them and the
table that undoes it. Reserved bytes decode to numbers below -1. Both versions
use this program.
-/

namespace OldRadio.Tools

open Library Second

/-- What the program is called with. -/
structure SymbolArgs where
  /-- How many symbols to print; from 256 on, all. -/
  maxsym : Nat
  /-- The longest run of ones. -/
  maxones : Nat
  /-- The longest run of zeros. -/
  maxzeros : Nat
  /-- The fewest bits of a symbol. -/
  minbits : Int
  /-- The most bits of a symbol. -/
  maxbits : Int
  /-- Bytes that are not to be used. -/
  reserved : List UInt8

namespace SymbolArgs

variable (args : SymbolArgs)

/-- `findsymbols`. -/
def findsymbols : List UInt8 :=
  ((List.range 256).map UInt8.ofNat).filter fun symbol =>
    symbol ∉ args.reserved ∧ args.minbits ≤ bits symbol ∧ bits symbol ≤ args.maxbits ∧
      (runPattern args.maxones args.maxzeros).rmatch (symbolLine symbol)

/-- The symbols in the order of the table, before it is cut off. -/
def symbols : List UInt8 :=
  if 8 - args.maxbits < args.minbits then args.findsymbols.reverse else args.findsymbols

/-- `symbol_encode`, as it is printed. -/
def encode : List UInt8 := if args.maxsym < 256 then args.symbols.take args.maxsym else args.symbols

/-- `symbol_decode`, as `printheader` makes and prints it. -/
def decode : List Int :=
  let decode := List.replicate 256 (-1)
  let decode := writeNumbers (fun n => (n : Int)) 0 (args.encode.map UInt8.toNat) decode
  writeNumbers (fun n => -2 - (n : Int)) 0 (args.reserved.map UInt8.toNat) decode

end SymbolArgs

/-! ## The symbols -/

variable {args : SymbolArgs}

private theorem toNat_injective : Function.Injective UInt8.toNat := fun _ _ h =>
  UInt8.toNat_inj.mp h

private theorem nodup_bytes : ((List.range 256).map UInt8.ofNat).Nodup := by
  refine List.Nodup.map_on (fun m hm n hn h => ?_) List.nodup_range
  have hmn := congrArg UInt8.toNat h
  rw [UInt8.toNat_ofNat', UInt8.toNat_ofNat'] at hmn
  have hm := List.mem_range.mp hm
  have hn := List.mem_range.mp hn
  omega

theorem nodup_symbols (args : SymbolArgs) : args.symbols.Nodup := by
  have hfound : args.findsymbols.Nodup := nodup_bytes.filter _
  unfold SymbolArgs.symbols
  split
  · exact List.nodup_reverse.mpr hfound
  · exact hfound

theorem nodup_encode (args : SymbolArgs) : args.encode.Nodup := by
  unfold SymbolArgs.encode
  split
  · exact (nodup_symbols args).sublist (List.take_sublist _ _)
  · exact nodup_symbols args

theorem mem_symbols_of_mem_encode {symbol : UInt8} (h : symbol ∈ args.encode) :
    symbol ∈ args.symbols := by
  unfold SymbolArgs.encode at h
  split at h
  · exact List.mem_of_mem_take h
  · exact h

/-- A byte is a symbol if and only if it is not reserved, has an allowed number of bits set, and has
no long run on the line. -/
theorem mem_symbols {symbol : UInt8} : symbol ∈ args.symbols ↔
    symbol ∉ args.reserved ∧ args.minbits ≤ (dataBits symbol).count true ∧
      (dataBits symbol).count true ≤ args.maxbits ∧
      RunsAtMost true args.maxones (symbolLine symbol) ∧
      RunsAtMost false args.maxzeros (symbolLine symbol) := by
  have hmem : symbol ∈ args.symbols ↔ symbol ∈ args.findsymbols := by
    unfold SymbolArgs.symbols
    split
    · exact List.mem_reverse
    · exact Iff.rfl
  have hbyte : symbol ∈ (List.range 256).map UInt8.ofNat :=
    List.mem_map.mpr ⟨symbol.toNat, List.mem_range.mpr symbol.toNat_lt, UInt8.ofNat_toNat⟩
  rw [hmem, SymbolArgs.findsymbols, List.mem_filter, and_iff_right hbyte, decide_eq_true_iff,
    rmatch_runPattern_iff, head?_symbolLine, getLast?_symbolLine, bits_eq_count]
  simp

/-! ## The tables -/

private theorem toNat_notMem {symbol : UInt8} {l : List UInt8} (h : symbol ∉ l) :
    symbol.toNat ∉ l.map UInt8.toNat := by
  intro hmem
  obtain ⟨s, hs, heq⟩ := List.mem_map.mp hmem
  rw [toNat_injective heq] at hs
  exact h hs

private theorem getElem?_map_toNat {l : List UInt8} {n : Nat} {symbol : UInt8}
    (h : l[n]? = some symbol) : (l.map UInt8.toNat)[n]? = some symbol.toNat := by
  rw [List.getElem?_map, h]
  rfl

theorem decode_of_getElem?_encode {n : Nat} {symbol : UInt8}
    (h : args.encode[n]? = some symbol) : args.decode[symbol.toNat]? = some (n : Int) := by
  have hfree : symbol ∉ args.reserved :=
    (mem_symbols.mp (mem_symbols_of_mem_encode (List.mem_of_getElem? h))).1
  rw [SymbolArgs.decode, getElem?_writeNumbers_of_notMem (toNat_notMem hfree),
    getElem?_writeNumbers ((nodup_encode args).map toNat_injective) (getElem?_map_toNat h)
      (by rw [List.length_replicate]; exact symbol.toNat_lt), Nat.zero_add]

theorem decode_of_getElem?_reserved (hreserved : args.reserved.Nodup) {k : Nat} {symbol : UInt8}
    (h : args.reserved[k]? = some symbol) :
    args.decode[symbol.toNat]? = some (-2 - (k : Int)) := by
  rw [SymbolArgs.decode, getElem?_writeNumbers (hreserved.map toNat_injective)
    (getElem?_map_toNat h)
    (by rw [length_writeNumbers, List.length_replicate]; exact symbol.toNat_lt), Nat.zero_add]

theorem decode_of_unused {symbol : UInt8} (hencode : symbol ∉ args.encode)
    (hreserved : symbol ∉ args.reserved) : args.decode[symbol.toNat]? = some (-1) := by
  rw [SymbolArgs.decode, getElem?_writeNumbers_of_notMem (toNat_notMem hreserved),
    getElem?_writeNumbers_of_notMem (toNat_notMem hencode), List.getElem?_replicate,
    if_pos symbol.toNat_lt]

/-- The tables that the program prints: the symbols are distinct and not reserved, decoding undoes
encoding, reserved bytes count down from -2, everything else is -1, and before the table is cut off
a byte is in it if and only if it has the properties that are asked for. -/
theorem symbolTables_correct (args : SymbolArgs) (hreserved : args.reserved.Nodup) :
    args.encode.Nodup ∧
      (∀ symbol ∈ args.reserved, symbol ∉ args.encode) ∧
      (∀ (n : Nat) (symbol : UInt8), args.encode[n]? = some symbol →
        args.decode[symbol.toNat]? = some (n : Int)) ∧
      (∀ (k : Nat) (symbol : UInt8), args.reserved[k]? = some symbol →
        args.decode[symbol.toNat]? = some (-2 - (k : Int))) ∧
      (∀ symbol, symbol ∉ args.encode → symbol ∉ args.reserved →
        args.decode[symbol.toNat]? = some (-1)) ∧
      (∀ symbol, symbol ∈ args.symbols ↔
        symbol ∉ args.reserved ∧ args.minbits ≤ (dataBits symbol).count true ∧
          (dataBits symbol).count true ≤ args.maxbits ∧
          RunsAtMost true args.maxones (symbolLine symbol) ∧
          RunsAtMost false args.maxzeros (symbolLine symbol)) ∧
      args.encode = if args.maxsym < 256 then args.symbols.take args.maxsym else args.symbols :=
  ⟨nodup_encode args, fun _ hr he => (mem_symbols.mp (mem_symbols_of_mem_encode he)).1 hr,
    fun _ _ hn => decode_of_getElem?_encode hn,
    fun _ _ hk => decode_of_getElem?_reserved hreserved hk,
    fun _ he hr => decode_of_unused he hr, fun _ => mem_symbols, rfl⟩

/-- The first four symbols with five or six bits set and no run of four ones or five zeros. -/
def fourArgs : SymbolArgs := ⟨4, 3, 4, 5, 6, [0x55, 0xAA]⟩

/-- The reserved bytes decode to -2 and -3, the null byte, which has no bit set, to -1, and the
symbols to where they are. -/
theorem symbolTables_correct_four :
    fourArgs.encode.Nodup ∧ 0x55 ∉ fourArgs.encode ∧ fourArgs.decode[0x55]? = some (-2) ∧
      fourArgs.decode[0xAA]? = some (-3) ∧ fourArgs.decode[0x00]? = some (-1) ∧
      ∀ symbol ∈ fourArgs.encode, ∃ n : Nat, n < 4 ∧
        fourArgs.decode[symbol.toNat]? = some (n : Int) := by
  obtain ⟨hnodup, hreserved, hundo, hcount, hunused, hmem, hcut⟩ :=
    symbolTables_correct fourArgs (by decide)
  have hcut : fourArgs.encode = fourArgs.symbols.take 4 := hcut
  have hnull : (0 : UInt8) ∉ fourArgs.encode := by
    rw [hcut]
    intro h
    exact absurd ((hmem 0).mp (List.mem_of_mem_take h)).2.1 (by decide)
  refine ⟨hnodup, hreserved _ (by decide), hcount 0 0x55 rfl, hcount 1 0xAA rfl,
    hunused 0 hnull (by decide), fun symbol hsymbol => ?_⟩
  obtain ⟨n, hn, heq⟩ := List.getElem_of_mem hsymbol
  have hlength : fourArgs.encode.length ≤ 4 := by
    rw [hcut]
    exact List.length_take_le 4 _
  exact ⟨n, hn.trans_le hlength, hundo n symbol (heq ▸ List.getElem?_eq_getElem hn)⟩

/-! ## The tables in use -/

/-- The symbols are found as well by looking at the runs on the line. -/
theorem findsymbols_eq (args : SymbolArgs) : args.findsymbols =
    ((List.range 256).map UInt8.ofNat).filter fun symbol =>
      symbol ∉ args.reserved ∧ args.minbits ≤ bits symbol ∧ bits symbol ≤ args.maxbits ∧
        RunsAtMost true args.maxones (symbolLine symbol) ∧
        RunsAtMost false args.maxzeros (symbolLine symbol) := by
  refine List.filter_congr fun symbol _ => decide_eq_decide.mpr ?_
  rw [rmatch_runPattern_iff, head?_symbolLine, getLast?_symbolLine]
  simp

/-- What the tables of the second version are made with. -/
def radio2Args : SymbolArgs where
  maxsym := 128
  maxones := 3
  maxzeros := 5
  minbits := 4
  maxbits := 8
  reserved := [symbolStart, symbolEnd, symbolSync]

/-- The tables of the second version are the generator's. -/
theorem symbolTables_radio2 :
    radio2Args.encode = symbolEncodeTable ∧ radio2Args.decode = symbolDecodeTable := by
  have hencode : radio2Args.encode = symbolEncodeTable := by
    rw [SymbolArgs.encode, SymbolArgs.symbols, findsymbols_eq]
    decide +kernel
  refine ⟨hencode, ?_⟩
  rw [SymbolArgs.decode, hencode]
  decide +kernel

/-- What the Makefile of the first version calls the generator with. -/
def serialArgs : SymbolArgs where
  maxsym := 64
  maxones := 3
  maxzeros := 4
  minbits := 5
  maxbits := 6
  reserved := [0x55, 0xAA, 0xFF]

/-- The first version has just enough symbols for six bits. -/
theorem length_encode_serialArgs : serialArgs.encode.length = 64 := by
  rw [SymbolArgs.encode, SymbolArgs.symbols, findsymbols_eq]
  decide +kernel

end OldRadio.Tools
