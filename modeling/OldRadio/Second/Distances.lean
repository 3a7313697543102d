import OldRadio.Second.Loc
import Mathlib.Algebra.Order.Ring.Int

/-!
# Distances in machine arithmetic

`loc_dist2` subtracts coordinates as `int` values before it widens them, and adds
three squares as `long` values. Its result is the exact square of the distance
as long as the differences are `int` values and the sum is a `long` value; two
locations in opposite corners of the coordinate space break both.
-/

namespace OldRadio.Second

/-- The values of an `int`. -/
def FitsInt (n : Int) : Prop := -2 ^ 31 ≤ n ∧ n < 2 ^ 31

/-- The values of a `long`. -/
def FitsLong (n : Int) : Prop := -2 ^ 63 ≤ n ∧ n < 2 ^ 63

instance (n : Int) : Decidable (FitsInt n) := inferInstanceAs (Decidable (_ ∧ _))

instance (n : Int) : Decidable (FitsLong n) := inferInstanceAs (Decidable (_ ∧ _))

/-- The square of the distance in integers. -/
def exactDist2 (a b : Loc) : Int :=
  (b.x.toInt - a.x.toInt) ^ 2 + (b.y.toInt - a.y.toInt) ^ 2 + (b.z.toInt - a.z.toInt) ^ 2

/-- No signed operation of `loc_dist2` overflows, and its result is exact. -/
structure DistExact (a b : Loc) : Prop where
  /-- The first difference is an `int`. -/
  diffX : FitsInt (b.x.toInt - a.x.toInt)
  /-- The second difference is an `int`. -/
  diffY : FitsInt (b.y.toInt - a.y.toInt)
  /-- The third difference is an `int`. -/
  diffZ : FitsInt (b.z.toInt - a.z.toInt)
  /-- `dx*dx` is a `long`. -/
  squareX : FitsLong ((coordDiff a.x b.x).toInt * (coordDiff a.x b.x).toInt)
  /-- `dy*dy` is a `long`. -/
  squareY : FitsLong ((coordDiff a.y b.y).toInt * (coordDiff a.y b.y).toInt)
  /-- `dz*dz` is a `long`. -/
  squareZ : FitsLong ((coordDiff a.z b.z).toInt * (coordDiff a.z b.z).toInt)
  /-- `dx*dx + dy*dy` is a `long`. -/
  sumXY : FitsLong ((coordDiff a.x b.x * coordDiff a.x b.x).toInt +
    (coordDiff a.y b.y * coordDiff a.y b.y).toInt)
  /-- `dx*dx + dy*dy + dz*dz` is a `long`. -/
  sumXYZ : FitsLong ((coordDiff a.x b.x * coordDiff a.x b.x +
    coordDiff a.y b.y * coordDiff a.y b.y).toInt + (coordDiff a.z b.z * coordDiff a.z b.z).toInt)
  /-- The result is the exact one. -/
  value : ((locDist2 a b).toNat : Int) = exactDist2 a b

/-- The coordinates of two locations differ by `int` values, and the locations are less than
`2 ^ 31.5` apart. -/
def DistInRange (a b : Loc) : Prop :=
  FitsInt (b.x.toInt - a.x.toInt) ∧ FitsInt (b.y.toInt - a.y.toInt) ∧
    FitsInt (b.z.toInt - a.z.toInt) ∧ exactDist2 a b < 2 ^ 63

instance (a b : Loc) : Decidable (DistInRange a b) := inferInstanceAs (Decidable (_ ∧ _))

/-! ## Operations that do not overflow -/

theorem toInt_coordDiff {a b : Int32} (h : FitsInt (b.toInt - a.toInt)) :
    (coordDiff a b).toInt = b.toInt - a.toInt := by
  rw [coordDiff, Int32.toInt_toInt64, Int32.toInt_sub]
  exact Int.bmod_eq_of_le h.1 h.2

theorem toInt_mul_of_fits {x y : Int64} (h : FitsLong (x.toInt * y.toInt)) :
    (x * y).toInt = x.toInt * y.toInt := by
  rw [Int64.toInt_mul]
  exact Int.bmod_eq_of_le h.1 h.2

theorem toInt_add_of_fits {x y : Int64} (h : FitsLong (x.toInt + y.toInt)) :
    (x + y).toInt = x.toInt + y.toInt := by
  rw [Int64.toInt_add]
  exact Int.bmod_eq_of_le h.1 h.2

/-- A `long` that is not negative keeps its value as an `unsigned long`. -/
theorem toNat_toUInt64_of_nonneg {x : Int64} (h : 0 ≤ x.toInt) :
    (x.toUInt64.toNat : Int) = x.toInt := by
  rw [Int64.toNat_toUInt64_of_le (Int64.le_iff_toInt_le.mpr h), Int64.toNatClampNeg,
    Int.toNat_of_nonneg h]

/-- The sum of three squares without overflow. -/
theorem toInt_squares {dx dy dz : Int64} (hx : FitsLong (dx.toInt * dx.toInt))
    (hy : FitsLong (dy.toInt * dy.toInt)) (hz : FitsLong (dz.toInt * dz.toInt))
    (hxy : FitsLong ((dx * dx).toInt + (dy * dy).toInt))
    (hxyz : FitsLong ((dx * dx + dy * dy).toInt + (dz * dz).toInt)) :
    (dx * dx + dy * dy + dz * dz).toInt =
      dx.toInt * dx.toInt + dy.toInt * dy.toInt + dz.toInt * dz.toInt := by
  rw [toInt_add_of_fits hxyz, toInt_add_of_fits hxy, toInt_mul_of_fits hx, toInt_mul_of_fits hy,
    toInt_mul_of_fits hz]

theorem exactDist2_eq {a b : Loc} (hx : FitsInt (b.x.toInt - a.x.toInt))
    (hy : FitsInt (b.y.toInt - a.y.toInt)) (hz : FitsInt (b.z.toInt - a.z.toInt)) :
    exactDist2 a b = (coordDiff a.x b.x).toInt * (coordDiff a.x b.x).toInt +
      (coordDiff a.y b.y).toInt * (coordDiff a.y b.y).toInt +
      (coordDiff a.z b.z).toInt * (coordDiff a.z b.z).toInt := by
  rw [toInt_coordDiff hx, toInt_coordDiff hy, toInt_coordDiff hz, exactDist2, pow_two, pow_two,
    pow_two]

/-! ## Exactness -/

theorem DistExact.inRange {a b : Loc} (h : DistExact a b) : DistInRange a b := by
  refine ⟨h.diffX, h.diffY, h.diffZ, ?_⟩
  have hsum := h.sumXYZ.2
  rw [toInt_add_of_fits h.sumXY, toInt_mul_of_fits h.squareX, toInt_mul_of_fits h.squareY,
    toInt_mul_of_fits h.squareZ] at hsum
  rw [exactDist2_eq h.diffX h.diffY h.diffZ]
  exact hsum

theorem DistInRange.exact {a b : Loc} (h : DistInRange a b) : DistExact a b := by
  obtain ⟨hx, hy, hz, hsum⟩ := h
  have hexact := exactDist2_eq hx hy hz
  rw [hexact] at hsum
  have hx0 := mul_self_nonneg (coordDiff a.x b.x).toInt
  have hy0 := mul_self_nonneg (coordDiff a.y b.y).toInt
  have hz0 := mul_self_nonneg (coordDiff a.z b.z).toInt
  have hsx : FitsLong ((coordDiff a.x b.x).toInt * (coordDiff a.x b.x).toInt) :=
    ⟨by omega, by omega⟩
  have hsy : FitsLong ((coordDiff a.y b.y).toInt * (coordDiff a.y b.y).toInt) :=
    ⟨by omega, by omega⟩
  have hsz : FitsLong ((coordDiff a.z b.z).toInt * (coordDiff a.z b.z).toInt) :=
    ⟨by omega, by omega⟩
  have hsxy : FitsLong ((coordDiff a.x b.x * coordDiff a.x b.x).toInt +
      (coordDiff a.y b.y * coordDiff a.y b.y).toInt) := by
    rw [toInt_mul_of_fits hsx, toInt_mul_of_fits hsy]
    exact ⟨by omega, by omega⟩
  have hsxyz : FitsLong ((coordDiff a.x b.x * coordDiff a.x b.x +
      coordDiff a.y b.y * coordDiff a.y b.y).toInt +
      (coordDiff a.z b.z * coordDiff a.z b.z).toInt) := by
    rw [toInt_add_of_fits hsxy, toInt_mul_of_fits hsx, toInt_mul_of_fits hsy,
      toInt_mul_of_fits hsz]
    exact ⟨by omega, by omega⟩
  have hvalue := toInt_squares hsx hsy hsz hsxy hsxyz
  refine ⟨hx, hy, hz, hsx, hsy, hsz, hsxy, hsxyz, ?_⟩
  rw [locDist2, hexact, toNat_toUInt64_of_nonneg (by rw [hvalue]; omega), hvalue]

/-- Distances that are in range compare like the exact ones. -/
theorem locDist2_lt_iff {a b c : Loc} (ha : DistInRange a c) (hb : DistInRange b c) :
    locDist2 a c < locDist2 b c ↔ exactDist2 a c < exactDist2 b c := by
  rw [← ha.exact.value, ← hb.exact.value, UInt64.lt_iff_toNat_lt, Int.ofNat_lt]

/-- `loc_dist2` computes without overflow and exactly if and only if the differences of the
coordinates are `int` values and the sum of their squares is a `long` value. Then the comparisons
of `node_route_mfr` are those of the distances. -/
theorem locDist2_exact_iff (a b dest : Loc) :
    (DistExact a dest ↔ DistInRange a dest) ∧
      (DistInRange a dest → DistInRange b dest →
        (locDist2 a dest < locDist2 b dest ↔ exactDist2 a dest < exactDist2 b dest)) :=
  ⟨⟨DistExact.inRange, DistInRange.exact⟩, locDist2_lt_iff⟩

/-- A location in the opposite corner is further than one in the middle and seems nearer: the
difference of its coordinates is not an `int`. -/
theorem locDist2_wraps :
    ¬ DistExact ⟨-2147483648, 0, 0⟩ ⟨2147483647, 0, 0⟩ ∧
      locDist2 ⟨-2147483648, 0, 0⟩ ⟨2147483647, 0, 0⟩ = 1 ∧
      locDist2 ⟨-2147483648, 0, 0⟩ ⟨2147483647, 0, 0⟩ < locDist2 locZero ⟨2147483647, 0, 0⟩ ∧
      exactDist2 locZero ⟨2147483647, 0, 0⟩ <
        exactDist2 ⟨-2147483648, 0, 0⟩ ⟨2147483647, 0, 0⟩ := by
  refine ⟨fun h => ?_, by decide, by decide, by decide⟩
  have hfits := h.diffX
  revert hfits
  decide

end OldRadio.Second
