import Mathlib.Algebra.Group.Nat.Defs

/-!
# Times

`vtime_t` is an unsigned 64-bit count of microseconds, in the simulator's time
or since a recent epoch. Sums wrap, and a time that becomes an `int` is cut.
-/

namespace OldRadio.Second

/-- `vtime_t`. -/
abbrev VTime := UInt64

/-- `VTIME_ZERO`. -/
def vtimeZero : VTime := 0

/-- `VTIME_INF`: `(vtime_t)-1`. -/
def vtimeInf : VTime := 0xFFFFFFFFFFFFFFFF

/-- `VTIME_SECONDS`, in microseconds. -/
def vtimeSeconds : Nat := 1000000

/-- `VTIME_MILLIS`, in microseconds. -/
def vtimeMillis : Nat := 1000

/-- `VTIME_MICROS`. -/
def vtimeMicros : Nat := 1

/-- Moving a time forward by a delay. -/
def VTime.after (vtime : VTime) (delay : Nat) : VTime := vtime + UInt64.ofNat delay

/-- A delay that does not reach the end of the clock is added exactly. -/
theorem VTime.toNat_after {vtime : VTime} {delay : Nat} (h : vtime.toNat + delay < 2 ^ 64) :
    (vtime.after delay).toNat = vtime.toNat + delay := by
  rw [VTime.after, UInt64.toNat_add, UInt64.toNat_ofNat']
  omega

theorem VTime.le_of_not_lt {a b : VTime} (h : ¬ a < b) : b ≤ a := by
  rw [UInt64.le_iff_toNat_le]
  rw [UInt64.lt_iff_toNat_lt] at h
  omega

/-- A word that is cut to an `int`, as a number. -/
theorem toInt_toInt32_toUInt32 (x : UInt64) :
    x.toUInt32.toInt32.toInt = (x.toNat : Int).bmod (2 ^ 32) := by
  change x.toUInt32.toBitVec.toInt = _
  rw [BitVec.toInt_eq_toNat_bmod]
  change ((x.toUInt32.toNat : Nat) : Int).bmod (2 ^ 32) = _
  rw [UInt64.toNat_toUInt32, Int.natCast_emod, Int.emod_bmod]

end OldRadio.Second
