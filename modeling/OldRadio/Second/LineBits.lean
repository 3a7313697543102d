import OldRadio.Library.Runs
import OldRadio.Second.Codec

/-!
# Symbols on the line

A byte goes over the line as ten bits: a start bit `1`, the eight data bits
least significant first and inverted, and a stop bit `0`. The table keeps only
symbols whose ten bits have no long run, and as each begins with a `1` and ends
with a `0`, no run crosses from one symbol into the next.
-/

namespace OldRadio.Second

open Library

/-- The data bits of a byte in the order of the line. -/
def dataBits (symbol : UInt8) : List Bool :=
  [1, 2, 4, 8, 16, 32, 64, 128].map fun bit => symbol &&& bit != 0

/-- The pattern that `findsymbols` matches: the line bits of one byte. -/
def symbolLine (symbol : UInt8) : List Bool := true :: (dataBits symbol).map not ++ [false]

/-- The line bits of a string of bytes. -/
def lineBits (symbols : List UInt8) : List Bool := symbols.flatMap symbolLine

/-- `bits`: clear the lowest bit that is set until none is left, counting. -/
def bitsFrom : Nat → Nat → Nat
  | 0, _ => 0
  | fuel + 1, s => if s = 0 then 0 else bitsFrom fuel (s &&& (s - 1)) + 1

/-- `bits`: how many bits of a byte are set. -/
def bits (symbol : UInt8) : Nat := bitsFrom 8 symbol.toNat

private theorem forall_uint8_of_all {p : UInt8 → Prop} [DecidablePred p]
    (h : ((List.range 256).all fun n => decide (p (UInt8.ofNat n))) = true) (s : UInt8) : p s := by
  have hs := List.all_eq_true.mp h s.toNat (List.mem_range.mpr s.toNat_lt)
  simpa using hs

/-- The counting loop counts the data bits that are set. -/
theorem bits_eq_count (symbol : UInt8) : bits symbol = (dataBits symbol).count true :=
  forall_uint8_of_all (p := fun s => bits s = (dataBits s).count true) (by decide +kernel) symbol

/-- What the generator asks of a symbol: runs of at most three ones and five zeros, and at
least four bits set. -/
structure Balanced (symbol : UInt8) : Prop where
  ones : RunsAtMost true 3 (symbolLine symbol)
  zeros : RunsAtMost false 5 (symbolLine symbol)
  minbits : 4 ≤ bits symbol

/-- Every entry of the table is such a symbol. -/
theorem balanced_of_mem_symbolEncodeTable : ∀ s ∈ symbolEncodeTable, Balanced s := by
  have h : ∀ s ∈ symbolEncodeTable, RunsAtMost true 3 (symbolLine s) ∧
      RunsAtMost false 5 (symbolLine s) ∧ 4 ≤ bits s := by decide +kernel
  exact fun s hs => ⟨(h s hs).1, (h s hs).2.1, (h s hs).2.2⟩

/-- So is every symbol of a packed string, whatever the padding of its last chunk. -/
theorem balanced_of_mem_bytesToSymbols {bytes : List UInt8} :
    ∀ s ∈ bytesToSymbols bytes, Balanced s := by
  intro s hs
  have hvalid := symbolValid_of_mem_bytesToSymbols s hs
  have hcode : symbolEncode (symbolDecode s).toNat = s := symbolEncode_symbolDecode hvalid
  have hlt : (symbolDecode s).toNat < symbolEncodeTable.length := by
    have hlow := symbolDecode_lt hvalid
    have hlen : symbolEncodeTable.length = 128 := rfl
    omega
  apply balanced_of_mem_symbolEncodeTable
  rw [← hcode, symbolEncode, List.getD_eq_getElem?_getD, List.getElem?_eq_getElem hlt,
    Option.getD_some]
  exact List.getElem_mem hlt

theorem head?_symbolLine (symbol : UInt8) : (symbolLine symbol).head? = some true := rfl

theorem getLast?_symbolLine (symbol : UInt8) : (symbolLine symbol).getLast? = some false := by
  rw [symbolLine, List.getLast?_concat]

/-- A packed string puts no run of more than three ones or five zeros on the line, and every
symbol of it has at least four bits set. -/
theorem lineBits_bytesToSymbols (bytes : List UInt8) :
    RunsAtMost true 3 (lineBits (bytesToSymbols bytes)) ∧
      RunsAtMost false 5 (lineBits (bytesToSymbols bytes)) ∧
      ∀ s ∈ bytesToSymbols bytes, 4 ≤ (dataBits s).count true := by
  have hbalanced : ∀ s ∈ bytesToSymbols bytes, Balanced s := balanced_of_mem_bytesToSymbols
  refine ⟨?_, ?_, fun s hs => bits_eq_count s ▸ (hbalanced s hs).minbits⟩
  · refine runsAtMost_flatMap (fun s hs => (hbalanced s hs).ones) (.inl fun s _ => ?_)
    rw [getLast?_symbolLine]
    decide
  · refine runsAtMost_flatMap (fun s hs => (hbalanced s hs).zeros) (.inr fun s _ => ?_)
    rw [head?_symbolLine]
    decide

end OldRadio.Second
