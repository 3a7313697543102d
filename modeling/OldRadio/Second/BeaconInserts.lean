import OldRadio.Library.Program
import OldRadio.Second.Node

/-!
# What a beacon puts into a table

`node_receive_beacon` makes a sequence of insertions of a beacon: one for each
entry of a beacon that sees its receiver, one link further, and else one that
marks the sender.
-/

namespace OldRadio.Second

open Library

/-- A call of `neigh_table_insert` that `node_receive_beacon` makes. -/
structure BeaconInsert where
  /-- The entry of the beacon that it is made for. -/
  told : Neigh
  /-- What is inserted. -/
  neigh : Neigh

/-- An entry of a beacon, one link further. -/
def beaconFurther (n : Neigh) : BeaconInsert :=
  { told := n, neigh := { n with stratum := n.stratum + 1 } }

/-- The sender of a beacon that does not see its receiver. -/
def beaconMarked (n : Neigh) : BeaconInsert :=
  { told := n, neigh := { n with stratum := neighStratumInf } }

/-- The entries that node `id` inserts of a beacon that sees it. -/
def recordedNeighs (id : NodeId) (neighs : List Neigh) : List Neigh :=
  neighs.filter fun n => n.id ≠ id ∧ n.stratum ≠ neighStratumInf

/-- The calls of `neigh_table_insert` for a beacon, in order. -/
def beaconInserts (id : NodeId) (neighs : List Neigh) : List BeaconInsert :=
  if beaconSeesSelf id neighs then (recordedNeighs id neighs).map beaconFurther
  else (neighs.take 1).map beaconMarked

/-- The table after some insertions. -/
def insertAll (vtime : VTime) (table : NeighTable) (inserts : List BeaconInsert) :
    Except Abort NeighTable :=
  inserts.foldlM (fun table i => neighTableInsert table i.neigh vtime) table

section Inserts

variable {id : NodeId} {vtime : VTime} {table table' : NeighTable} {neighs : List Neigh}
  {inserts : List BeaconInsert}

theorem insertAll_cons (i : BeaconInsert) (inserts : List BeaconInsert) :
    insertAll vtime table (i :: inserts) =
      neighTableInsert table i.neigh vtime >>= fun table => insertAll vtime table inserts :=
  List.foldlM_cons

theorem insertAll_recordedNeighs (neighs : List Neigh) (table : NeighTable) :
    neighs.foldlM (recordNeigh id vtime) table =
      insertAll vtime table ((recordedNeighs id neighs).map beaconFurther) := by
  induction neighs generalizing table with
  | nil => rfl
  | cons n rest ih =>
    rw [List.foldlM_cons, recordNeigh, recordedNeighs]
    by_cases hn : n.id ≠ id ∧ n.stratum ≠ neighStratumInf
    · rw [if_pos hn, List.filter_cons_of_pos (by simpa using hn), List.map_cons, insertAll_cons]
      exact congrArg _ (funext ih)
    · rw [if_neg hn, List.filter_cons_of_neg (by simpa using hn), ok_bind]
      exact ih table

/-- Recording a beacon is making its insertions. -/
theorem recordBeacon_eq_insertAll (hne : neighs ≠ []) :
    recordBeacon id vtime table neighs = insertAll vtime table (beaconInserts id neighs) := by
  unfold recordBeacon beaconInserts
  by_cases hsees : beaconSeesSelf id neighs = true
  · rw [if_pos hsees, if_pos hsees, insertAll_recordedNeighs]
  · rw [if_neg hsees, if_neg hsees]
    cases neighs with
    | nil => exact absurd rfl hne
    | cons first rest =>
      rw [List.take_succ_cons, List.take_zero, List.map_singleton, insertAll_cons]
      exact (bind_pure _).symm

/-- What is inserted of a beacon: entries of one that sees its receiver, and the sender of one that
does not. -/
theorem mem_beaconInserts {i : BeaconInsert} (h : i ∈ beaconInserts id neighs) :
    (beaconSeesSelf id neighs = true ∧
      ∃ n ∈ neighs, n.id ≠ id ∧ n.stratum ≠ neighStratumInf ∧ beaconFurther n = i) ∨
    ∃ first listed, neighs = first :: listed ∧ beaconMarked first = i := by
  unfold beaconInserts at h
  split at h
  · rename_i hsees
    obtain ⟨n, hn, rfl⟩ := List.mem_map.mp h
    obtain ⟨hmem, hrecorded⟩ := List.mem_filter.mp hn
    exact Or.inl ⟨hsees, n, hmem, (of_decide_eq_true hrecorded).1,
      (of_decide_eq_true hrecorded).2, rfl⟩
  · cases neighs with
    | nil => exact absurd h List.not_mem_nil
    | cons first listed => exact Or.inr ⟨first, listed, rfl, (List.mem_singleton.mp h).symm⟩

/-- A property of all that is inserted is kept by the entries of the table. -/
theorem forall_of_recordBeacon {P : Neigh → Prop} (hne : neighs ≠ [])
    (hinserts : ∀ i ∈ beaconInserts id neighs, P i.neigh)
    (htable : ∀ e ∈ table.entries, P e.neigh)
    (h : recordBeacon id vtime table neighs = .ok table') : ∀ e ∈ table'.entries, P e.neigh := by
  rw [recordBeacon_eq_insertAll hne] at h
  refine foldlM_keeps (I := fun t => ∀ e ∈ t.entries, P e.neigh) ?_ htable h
  intro i hi t t' ht hinsert e he
  rcases mem_of_neighTableInsert hinsert he with heq | hmem
  · rw [heq]
    exact hinserts i hi
  · exact ht e hmem

/-- Recording a beacon stops at a full table only. -/
theorem recordBeacon_error {e : Abort} (hne : neighs ≠ [])
    (h : recordBeacon id vtime table neighs = .error e) : e = .neighTableFull := by
  rw [recordBeacon_eq_insertAll hne] at h
  exact error_of_foldlM (p := fun e => e = .neighTableFull)
    (fun _ _ _ hinsert => neighTableInsert_error hinsert) h

/-- Some insertions and then others. -/
theorem insertAll_append (before after : List BeaconInsert) :
    insertAll vtime table (before ++ after) =
      insertAll vtime table before >>= fun table => insertAll vtime table after :=
  List.foldlM_append

/-- Every insertion of a sequence that succeeds is made. -/
theorem exists_insert_of_insertAll {before after : List BeaconInsert} {i : BeaconInsert}
    (h : insertAll vtime table (before ++ i :: after) = .ok table') :
    ∃ table₁ table₂, insertAll vtime table before = .ok table₁ ∧
      neighTableInsert table₁ i.neigh vtime = .ok table₂ := by
  rw [insertAll_append] at h
  obtain ⟨table₁, hbefore, hrest⟩ := bind_eq_ok h
  rw [insertAll_cons] at hrest
  obtain ⟨table₂, hi, -⟩ := bind_eq_ok hrest
  exact ⟨table₁, table₂, hbefore, hi⟩

end Inserts

end OldRadio.Second
