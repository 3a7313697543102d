import OldRadio.Library.Packed
import OldRadio.Second.World

/-!
# Locations

`loc.c`. A coordinate is a 32-bit integer; differences and squares are computed
in machine arithmetic, which wraps. Floating-point arithmetic is a parameter.
-/

namespace OldRadio.Second

open Library
open Node (M)

/-- A `loc_t`. -/
structure Loc where
  /-- First coordinate. -/
  x : Int32
  /-- Second coordinate. -/
  y : Int32
  /-- Third coordinate. -/
  z : Int32
  deriving DecidableEq, Repr

/-- `LOC_ZERO`, and the result of `loc_zero`. -/
def locZero : Loc := { x := 0, y := 0, z := 0 }

/-- The coordinates beyond the first `k` are zero. -/
def Loc.FlatBeyond (k : Nat) (a : Loc) : Prop := (k ≤ 1 → a.y = 0) ∧ (k ≤ 2 → a.z = 0)

theorem locZero_flatBeyond (k : Nat) : locZero.FlatBeyond k := ⟨fun _ => rfl, fun _ => rfl⟩

/-- `loc_set_dims`. -/
def locSetDims (dims : Int32) : Except Abort Nat :=
  if 1 ≤ dims ∧ dims ≤ 3 then .ok dims.toInt.toNat else .error .locDims

/-- The packed layout of a `loc_t`. -/
def locLayout : Packed Loc :=
  (Packed.int32.prod (Packed.int32.prod Packed.int32)).via
    (fun p => { x := p.1, y := p.2.1, z := p.2.2 }) (fun a => (a.x, a.y, a.z)) fun _ => rfl

/-- The `long` difference of two coordinates, computed as an `int`. -/
def coordDiff (a b : Int32) : Int64 := (b - a).toInt64

/-- `loc_dist2`. -/
def locDist2 (a b : Loc) : UInt64 :=
  let dx := coordDiff a.x b.x
  let dy := coordDiff a.y b.y
  let dz := coordDiff a.z b.z
  (dx * dx + dy * dy + dz * dz).toUInt64

@[simp] theorem locDist2_self (a : Loc) : locDist2 a a = 0 := by
  simp only [locDist2, coordDiff, Int32.sub_self]
  rfl

/-! ## Moving towards a location -/

/-- The floating-point computations of `loc.c` and `virtloc.c`, on energies of type `F`. -/
structure FloatOps (F : Type) where
  /-- The energy `0`. -/
  zero : F
  /-- `energy + K_ATTRACT * dist2`. -/
  attract : F → UInt64 → F
  /-- `energy + K_REPEL / (sqrt(dist2) + 1)`. -/
  repel : F → UInt64 → F
  /-- `!energy`. -/
  isZero : F → Bool
  /-- `newenergy <= oldenergy`. -/
  le : F → F → Bool
  /-- `x + dx * sqrtf((float)limit2 / dist2)` for the arguments `x`, `dx`, `limit2`, `dist2`. -/
  moved : Int32 → Int64 → UInt64 → UInt64 → Int32

/-- The computations with energies and steps rounded down to integers. -/
def integerOps : FloatOps Nat where
  zero := 0
  attract energy dist2 := energy + dist2.toNat
  repel energy dist2 := energy + 8000000 / (Nat.sqrt dist2.toNat + 1)
  isZero energy := energy == 0
  le := Nat.ble
  moved x dx limit2 dist2 :=
    x + Int32.ofInt (dx.toInt * Nat.sqrt limit2.toNat / Nat.sqrt dist2.toNat)

/-- `loc_move_towards`. -/
def locMoveTowards {F : Type} (ops : FloatOps F) (a b : Loc) (limit : UInt32) : Loc :=
  let dist2 := locDist2 a b
  let limit2 := (limit * limit).toUInt64
  if dist2 ≤ limit2 then b
  else
    { x := ops.moved a.x (coordDiff a.x b.x) limit2 dist2
      y := ops.moved a.y (coordDiff a.y b.y) limit2 dist2
      z := ops.moved a.z (coordDiff a.z b.z) limit2 dist2 }

/-- A coordinate 0 that is moved by 0 times a finite factor stays 0. -/
def FloatOps.KeepsZero {F : Type} (ops : FloatOps F) : Prop :=
  ∀ limit2 dist2, ops.moved 0 0 limit2 dist2 = 0

theorem integerOps_keepsZero : integerOps.KeepsZero := fun limit2 dist2 => by
  change 0 + Int32.ofInt (0 * _ / _) = 0
  rw [Int.zero_mul, Int.zero_ediv]
  rfl

/-- Moving between flat locations stays flat. -/
theorem locMoveTowards_flatBeyond {F : Type} {ops : FloatOps F} (hzero : ops.KeepsZero) {k : Nat}
    {a b : Loc} (ha : a.FlatBeyond k) (hb : b.FlatBeyond k) (limit : UInt32) :
    (locMoveTowards ops a b limit).FlatBeyond k := by
  rw [locMoveTowards]
  split
  · exact hb
  · refine ⟨fun hk => ?_, fun hk => ?_⟩
    · rw [ha.1 hk, hb.1 hk]
      exact hzero _ _
    · rw [ha.2 hk, hb.2 hk]
      exact hzero _ _

/-! ## Random moves -/

variable {Front : Type}

/-- A coordinate moved by up to `d` either way. -/
def coordPerturb (d : Nat) (v : Int32) : M Front Int32 := do
  let r ← rand
  return v + (UInt32.ofNat (r % (2 * d + 1)) - UInt32.ofNat d).toInt32

/-- A coordinate beyond the first `k`: moved if there are more dimensions, else zero. -/
def coordPerturbBeyond (k d : Nat) (v : Int32) : M Front Int32 := do
  let w ← get
  if k < w.dims then coordPerturb d v else return 0

/-- `loc_perturb`. -/
def locPerturb (a : Loc) (d : Nat) : M Front Loc := do
  let x ← coordPerturb d a.x
  let y ← coordPerturbBeyond 1 d a.y
  let z ← coordPerturbBeyond 2 d a.z
  return { x, y, z }

/-- Number of calls of `rand` that `loc_perturb` makes. -/
def perturbDraws (dims : Nat) : Nat :=
  1 + ((if 1 < dims then 1 else 0) + (if 2 < dims then 1 else 0))

section Specs

variable {bad : Abort → Prop} {w : World Front}

theorem wp_coordPerturb {good : Int32 → World Front → Prop} {d : Nat} {v : Int32}
    (h : ∀ v', good v' (w.skip 1)) : Wp (coordPerturb d v) good bad w := h _

theorem wp_coordPerturbBeyond {good : Int32 → World Front → Prop} {k d : Nat} {v : Int32}
    (h : ∀ v', (w.dims ≤ k → v' = 0) → good v' (w.skip (if k < w.dims then 1 else 0))) :
    Wp (coordPerturbBeyond k d v) good bad w := by
  rw [coordPerturbBeyond, wp_bind, wp_get]
  by_cases hk : k < w.dims
  · simp only [hk, if_true] at h ⊢
    exact wp_coordPerturb fun v' => h v' fun hle => absurd hk (Nat.not_lt.mpr hle)
  · simp only [hk, if_false, World.skip_zero] at h ⊢
    exact h 0 fun _ => rfl

/-- `loc_perturb` only calls `rand`, once for each dimension, and clears the other coordinates. -/
theorem wp_locPerturb {good : Loc → World Front → Prop} {a : Loc} {d : Nat}
    (h : ∀ a', a'.FlatBeyond w.dims → good a' (w.skip (perturbDraws w.dims))) :
    Wp (locPerturb a d) good bad w := by
  rw [locPerturb, wp_bind]
  refine wp_coordPerturb fun x => ?_
  rw [wp_bind]
  refine wp_coordPerturbBeyond fun y hy => ?_
  rw [wp_bind]
  refine wp_coordPerturbBeyond fun z hz => ?_
  rw [World.skip_skip, World.skip_skip, wp_pure]
  exact h _ ⟨hy, hz⟩

end Specs

end OldRadio.Second
