import OldRadio.First.Symbols
import OldRadio.Tools.SymbolTables

/-!
# The generated tables of the first version

Tables from `symbols.py` are inverse to each other, whatever it is called with,
if there are enough symbols. The Makefile asks for 64 of them, which makes them
six bits wide.
-/

namespace OldRadio.First

open Tools

/-- The tables that the generator prints, if it finds enough symbols. -/
def symbolTableOf (args : SymbolArgs) (enough : 64 ≤ args.encode.length) : SymbolTable where
  count := args.encode.length
  enough := enough
  encode k := args.encode.getD k 0
  decode symbol := args.decode.getD symbol.toNat 0
  symbolStart := args.reserved.getD 0 0
  symbolEnd := args.reserved.getD 1 0
  symbolSync := args.reserved.getD 2 0

@[simp] theorem symbolTableOf_count (args : SymbolArgs) (enough : 64 ≤ args.encode.length) :
    (symbolTableOf args enough).count = args.encode.length := rfl

/-- There is a symbol for every number of the width. -/
theorem SymbolTable.two_pow_bits_le (t : SymbolTable) : 2 ^ t.bits ≤ t.count := by
  have henough := t.enough
  unfold SymbolTable.bits
  split
  · exact henough
  · rename_i hmany
    exact Nat.not_lt.mp hmany

/-- Generated tables are inverse to each other. -/
theorem symbolTableOf_inverse (args : SymbolArgs) (enough : 64 ≤ args.encode.length) :
    (symbolTableOf args enough).Inverse := by
  intro k hk
  have hlen : k < args.encode.length := hk.trans_le (symbolTableOf args enough).two_pow_bits_le
  have hencode : args.encode[k]? = some args.encode[k] := List.getElem?_eq_getElem hlen
  have hdecode := decode_of_getElem?_encode hencode
  show args.decode.getD (args.encode.getD k 0).toNat 0 = k
  rw [List.getD_eq_getElem?_getD, List.getD_eq_getElem?_getD, hencode, Option.getD_some, hdecode,
    Option.getD_some]

/-- A reserved byte is decoded to its number. -/
private theorem getD_decode_reserved {args : SymbolArgs} (hreserved : args.reserved.Nodup) {k : Nat}
    (hk : k < args.reserved.length) :
    args.decode.getD (args.reserved.getD k 0).toNat 0 = -2 - (k : Int) := by
  have hget : args.reserved[k]? = some args.reserved[k] := List.getElem?_eq_getElem hk
  have hdecode := decode_of_getElem?_reserved hreserved hget
  rw [List.getD_eq_getElem?_getD, List.getD_eq_getElem?_getD, hget, Option.getD_some, hdecode,
    Option.getD_some]

/-- In generated tables with three reserved bytes the marks carry no data. -/
theorem symbolTableOf_marked (args : SymbolArgs) (enough : 64 ≤ args.encode.length)
    (hreserved : args.reserved.Nodup) (hthree : 3 ≤ args.reserved.length) :
    (symbolTableOf args enough).Marked where
  inverse := symbolTableOf_inverse args enough
  start := getD_decode_reserved hreserved (by omega)
  stop := getD_decode_reserved hreserved (by omega)
  sync := getD_decode_reserved hreserved (by omega)

/-- The tables of the Makefile. -/
def serialSymbols : SymbolTable := symbolTableOf serialArgs (by rw [length_encode_serialArgs])

theorem serialSymbols_count : serialSymbols.count = 64 := by
  rw [serialSymbols, symbolTableOf_count, length_encode_serialArgs]

theorem serialSymbols_bits : serialSymbols.bits = 6 := by
  rw [SymbolTable.bits, serialSymbols_count]
  rfl

theorem serialSymbols_inverse : serialSymbols.Inverse := symbolTableOf_inverse _ _

theorem serialSymbols_marked : serialSymbols.Marked :=
  symbolTableOf_marked _ _ (by decide) (by decide)

end OldRadio.First
