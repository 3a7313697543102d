import Mathlib.Algebra.Order.Ring.Defs
import Mathlib.Analysis.SpecialFunctions.Trigonometric.Inverse

/-!
# What the generators of topologies share

Both place nodes in the plane, at positions that `random` draws, and print links
between their numbers. Coordinates are exact: the programs are written over any
ordered field, with the functions of `math` as a parameter, and what is proved
about them is about the real numbers.
-/

namespace OldRadio.Tools

/-- A position. -/
abbrev Position (K : Type*) := K × K

/-- What the programs use of `math`. -/
structure PyMath (K : Type*) where
  /-- `pi`. -/
  pi : K
  /-- `sqrt`. -/
  sqrt : K → K
  /-- `sin`. -/
  sin : K → K
  /-- `cos`. -/
  cos : K → K
  /-- `acos`. -/
  acos : K → K

/-- The functions of `math`, if they are exact. -/
noncomputable def realMath : PyMath ℝ where
  pi := Real.pi
  sqrt := Real.sqrt
  sin := Real.sin
  cos := Real.cos
  acos := Real.arccos

/-- `len(argv)>i and number(argv[i]) or default`: zero counts as no argument. -/
def argOr {α : Type*} [Zero α] [DecidableEq α] (default : α) : Option α → α
  | none => default
  | some x => if x = 0 then default else x

/-- A link that is printed: two numbers of nodes, and behind them the distance. -/
structure PrintedLink (K : Type*) where
  /-- The number in front. -/
  n : Nat
  /-- The number behind it. -/
  m : Nat
  /-- The distance. -/
  d : K

/-- What a reader of the topology takes of the lines. -/
def linkPairs {K : Type*} (links : List (PrintedLink K)) : List (Nat × Nat) :=
  links.map fun l => (l.n, l.m)

variable {K : Type*} [Field K]

/-- The square of the distance in the plane, as the programs write it. -/
def planeDist2 (node1 node2 : Position K) : K :=
  (node1.1 - node2.1) ^ 2 + (node1.2 - node2.2) ^ 2

/-- The distance in the plane. -/
noncomputable def planeDist (node1 node2 : Position ℝ) : ℝ := √(planeDist2 node1 node2)

theorem planeDist2_comm (node1 node2 : Position K) :
    planeDist2 node1 node2 = planeDist2 node2 node1 := by
  unfold planeDist2
  ring

theorem planeDist2_nonneg [LinearOrder K] [IsStrictOrderedRing K] (node1 node2 : Position K) :
    0 ≤ planeDist2 node1 node2 :=
  add_nonneg (sq_nonneg _) (sq_nonneg _)

/-- Only one position is at distance zero. -/
theorem planeDist2_eq_zero_iff [LinearOrder K] [IsStrictOrderedRing K] {node1 node2 : Position K} :
    planeDist2 node1 node2 = 0 ↔ node1 = node2 := by
  rw [planeDist2, add_eq_zero_iff_of_nonneg (sq_nonneg _) (sq_nonneg _), sq_eq_zero_iff,
    sq_eq_zero_iff, sub_eq_zero, sub_eq_zero, Prod.ext_iff]

end OldRadio.Tools
