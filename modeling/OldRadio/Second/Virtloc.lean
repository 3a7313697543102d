import OldRadio.Second.Neigh

/-!
# Virtual locations

`virtloc.c`: a node looks for a location of lower energy by random moves of one
unit, and then takes a bounded step towards the one it found.
-/

namespace OldRadio.Second

open Library
open Node (M)

/-- `INITIAL_PERTURB`. -/
def initialPerturb : Nat := 10

/-- `MOVE_LIMIT`. -/
def moveLimit : UInt32 := 100

section Energy

variable {F : Type} (ops : FloatOps F)

/-- One neighbour's part in `energy`, and whether any was at stratum 1. -/
def energyStep (loc : Loc) (acc : F × Bool) (n : Neigh) : F × Bool :=
  if n.stratum = 0 ∨ n.stratum = neighStratumInf then acc
  else if n.stratum = 1 then (ops.attract acc.1 (locDist2 loc n.loc), true)
  else (ops.repel acc.1 (locDist2 loc n.loc), acc.2)

/-- `energy`. -/
def energy (loc : Loc) (table : NeighTable) : F :=
  let (energy, valid) := (neighIter table).foldl (energyStep ops loc) (ops.zero, false)
  if valid then energy else ops.zero

end Energy

variable {F Front : Type} (ops : FloatOps F)

/-- `virtloc_init`. -/
def virtlocInit (id : NodeId) : M Front Loc :=
  if id = 0 then pure locZero else locPerturb locZero initialPerturb

/-- The loop of `virtloc_recalc`: keep a random move that does not raise the energy. -/
def recalcLoop (table : NeighTable) : Nat → Loc → F → M Front Loc
  | 0, oldloc, _ => return oldloc
  | n + 1, oldloc, oldenergy => do
    let newloc ← locPerturb oldloc 1
    let newenergy := energy ops newloc table
    if ops.le newenergy oldenergy then recalcLoop table n newloc newenergy
    else recalcLoop table n oldloc oldenergy

/-- Number of moves that `virtloc_recalc` tries. -/
def recalcMoves : Nat := 999

/-- `virtloc_recalc`. -/
def virtlocRecalc (virtloc : Loc) (table : NeighTable) : M Front Loc := do
  let oldenergy := energy ops virtloc table
  if ops.isZero oldenergy then return virtloc
  else
    let oldloc ← recalcLoop ops table recalcMoves virtloc oldenergy
    return locMoveTowards ops virtloc oldloc moveLimit

/-- Number of calls of `rand` that `virtloc_recalc` makes. -/
def recalcDraws (dims : Nat) (virtloc : Loc) (table : NeighTable) : Nat :=
  if ops.isZero (energy ops virtloc table) then 0 else recalcMoves * perturbDraws dims

/-- Number of calls of `rand` that `virtloc_init` makes. -/
def initDraws (dims : Nat) (id : NodeId) : Nat := if id = 0 then 0 else perturbDraws dims

variable {bad : Abort → Prop} {w : World Front} {good : Loc → World Front → Prop}

/-- `virtloc_init` only calls `rand`, and makes a flat location. -/
theorem wp_virtlocInit {id : NodeId}
    (h : ∀ loc, loc.FlatBeyond w.dims → good loc (w.skip (initDraws w.dims id))) :
    Wp (virtlocInit id) good bad w := by
  rw [virtlocInit, wp_ite]
  rw [initDraws] at h
  refine ⟨fun h0 => ?_, fun h0 => ?_⟩
  · rw [wp_pure]
    simpa only [h0, if_true, World.skip_zero] using h locZero (locZero_flatBeyond w.dims)
  · simp only [h0, if_false] at h
    exact wp_locPerturb h

/-- The random moves from a flat location end at one. -/
theorem wp_recalcLoop {table : NeighTable} {n : Nat} {oldloc : Loc} {oldenergy : F}
    (h : ∀ loc, (oldloc.FlatBeyond w.dims → loc.FlatBeyond w.dims) →
      good loc (w.skip (n * perturbDraws w.dims))) :
    Wp (recalcLoop ops table n oldloc oldenergy) good bad w := by
  induction n generalizing w oldloc oldenergy with
  | zero =>
    rw [recalcLoop, wp_pure]
    simpa only [Nat.zero_mul, World.skip_zero] using h oldloc id
  | succ n ih =>
    have hrest : ∀ loc, (oldloc.FlatBeyond w.dims → loc.FlatBeyond w.dims) →
        good loc ((w.skip (perturbDraws w.dims)).skip
          (n * perturbDraws (w.skip (perturbDraws w.dims)).dims)) := fun loc hloc => by
      rw [World.skip_skip, World.skip_dims, Nat.add_comm, ← Nat.succ_mul]
      exact h loc hloc
    rw [recalcLoop, wp_bind]
    refine wp_locPerturb fun newloc hnew => ?_
    rw [wp_ite]
    exact ⟨fun _ => ih fun loc hloc => hrest loc fun _ => hloc hnew, fun _ => ih hrest⟩

/-- `virtloc_recalc` only calls `rand`, and keeps a location flat. -/
theorem wp_virtlocRecalc {virtloc : Loc} {table : NeighTable}
    (h : ∀ loc, (ops.KeepsZero → virtloc.FlatBeyond w.dims → loc.FlatBeyond w.dims) →
      good loc (w.skip (recalcDraws ops w.dims virtloc table))) :
    Wp (virtlocRecalc ops virtloc table) good bad w := by
  rw [virtlocRecalc]
  rw [recalcDraws] at h
  by_cases hz : ops.isZero (energy ops virtloc table) = true
  · simp only [hz, if_true, World.skip_zero] at h ⊢
    exact h virtloc fun _ hflat => hflat
  · simp only [hz] at h ⊢
    rw [if_neg (by decide), wp_bind]
    exact wp_recalcLoop ops fun loc hloc => h _ fun hzero hflat =>
      locMoveTowards_flatBeyond hzero hflat (hloc hflat) moveLimit

end OldRadio.Second
