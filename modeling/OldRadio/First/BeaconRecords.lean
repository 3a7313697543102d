import OldRadio.First.BeaconTable

/-!
# The records of a beacon

`beacon_prepare` passes an entry on if it is live and either near or only heard.
It writes the id and the location of that entry, but the stratum of the entry at
the position where the record goes. The beacon shows the table as it is exactly
where both strata agree, record by record. A record is written if it starts
inside the buffer, so the last one stays inside if there is a whole number of
records in the buffer, or no more than fit.
-/

namespace OldRadio.First

open Library

/-- The entry belongs into a beacon. -/
def passedOn (n : NeighbourT) : Bool :=
  n.state ≠ 0 && (decide (n.stratum < maxStrat) || n.stratum == stratInf)

/-- The record of an entry. -/
def recordOf (n : NeighbourT) : BeaconT := { id := n.id, stratum := n.stratum, vloc := n.vloc }

theorem passedOn_iff {n : NeighbourT} : passedOn n = true ↔
    n.state ≠ 0 ∧ ¬ (maxStrat ≤ n.stratum ∧ n.stratum ≠ stratInf) := by
  rw [passedOn, Bool.and_eq_true, decide_eq_true_iff, Bool.or_eq_true, decide_eq_true_iff,
    beq_iff_eq, Classical.not_and_iff_not_or_not, not_ne_iff, UInt8.not_le]

/-- With room for everything, the loop of `beacon_prepare` writes a record for each entry to pass
on, with the strata from position `j` on. -/
theorem prepareLoop_cons {table rest : List NeighbourT} {n : NeighbourT} {length : Int} {j : Nat}
    (hfit : (j + ((n :: rest).filter passedOn).length) * beaconLayout.size ≤ sizeT length) :
    prepareLoop table length j (n :: rest) =
      if passedOn n then
        { recordOf n with stratum := (table.map NeighbourT.stratum).getD j 0 } ::
          prepareLoop table length (j + 1) rest
      else prepareLoop table length j rest := by
  rw [prepareLoop]
  by_cases hn : passedOn n
  · obtain ⟨hlive, hnear⟩ := passedOn_iff.mp hn
    have hroom : j * beaconLayout.size < sizeT length := by
      rw [List.filter_cons_of_pos hn, List.length_cons, beaconLayout_size] at hfit
      rw [beaconLayout_size]
      omega
    rw [if_pos hroom, if_neg hlive, if_neg hnear, if_pos hn]
    rfl
  · rw [if_neg hn]
    split
    · by_cases hlive : n.state = 0
      · rw [if_pos hlive]
      · rw [if_neg hlive, if_pos (not_not.mp fun hnear => hn (passedOn_iff.mpr ⟨hlive, hnear⟩))]
    · -- The buffer is full, and nothing is left to write.
      rename_i hfull
      cases rest with
      | nil => rfl
      | cons m rest => rw [prepareLoop, if_neg hfull]

/-- The records of the rest of the table are right exactly when its strata to pass on are the ones
from position `j` on. -/
theorem prepareLoop_eq_iff {table rest : List NeighbourT} {length : Int} {j : Nat}
    (hj : j + rest.length ≤ table.length)
    (hfit : (j + (rest.filter passedOn).length) * beaconLayout.size ≤ sizeT length) :
    prepareLoop table length j rest = (rest.filter passedOn).map recordOf ↔
      (rest.filter passedOn).map NeighbourT.stratum <+:
        (table.map NeighbourT.stratum).drop j := by
  induction rest generalizing j with
  | nil => exact iff_of_true rfl List.nil_prefix
  | cons n rest ih =>
    rw [prepareLoop_cons hfit]
    rw [List.length_cons] at hj
    by_cases hn : passedOn n
    · rw [List.filter_cons_of_pos hn, List.length_cons] at hfit
      have hjt : j < (table.map NeighbourT.stratum).length := by
        rw [List.length_map]
        omega
      rw [if_pos hn, List.filter_cons_of_pos hn, List.map_cons, List.map_cons,
        List.drop_eq_getElem_cons hjt, List.cons_prefix_cons, List.cons.injEq,
        ← ih (by omega) (by rw [Nat.add_right_comm]; exact hfit),
        ← List.getElem_eq_getD (h := hjt) 0]
      refine and_congr_left fun _ => ⟨fun h => (congrArg BeaconT.stratum h).symm, fun h => ?_⟩
      rw [← h]
      rfl
    · rw [List.filter_cons_of_neg hn] at hfit ⊢
      rw [if_neg hn]
      exact ih (by omega) hfit

/-- Into a buffer with room for it, `beacon_prepare` writes the table as it is exactly when the
strata of the entries to pass on are the first strata of the table. -/
theorem beaconPrepare_faithful_iff {s : Beacons} {length : Int} (hint : length < 2 ^ 31)
    (hfit : ((s.neighbours.filter passedOn).length * beaconLayout.size : Nat) ≤ length) :
    beaconPrepare s length =
        beaconLayout.encodeList ((s.neighbours.filter passedOn).map recordOf) ↔
      (s.neighbours.filter passedOn).map NeighbourT.stratum <+:
        s.neighbours.map NeighbourT.stratum := by
  have hsize : sizeT length = length.toNat := by
    rw [sizeT]
    omega
  rw [beaconPrepare, Packed.encodeList_inj (by decide), Beacons.prepared,
    prepareLoop_eq_iff (by rw [Nat.zero_add]) (by rw [Nat.zero_add, hsize]; omega), List.drop_zero]

/-- The table of a node with a dead entry in front of a live one, both at stratum 1. -/
def beaconsSkipping : Beacons where
  identifier := 1
  neighbours := [⟨1, 1, 0, fun _ => 3, 0⟩, ⟨0, 2, 1, fun _ => 4, 0⟩, ⟨1, 3, 1, fun _ => 5, 90⟩]
  length_le := by decide

/-- An entry that is skipped does no harm if the next one has its stratum. -/
theorem beaconPrepare_faithful_iff_skipped :
    beaconPrepare beaconsSkipping 1023 =
      beaconLayout.encodeList ((beaconsSkipping.neighbours.filter passedOn).map recordOf) :=
  (beaconPrepare_faithful_iff (by decide) (by decide)).mpr (by decide)

/-- Node 1 hears of node 3 from node 2 and later from node 4; by then the entry of node 2 has
expired, and the beacon gives node 3 the stratum of node 2. -/
theorem beaconPrepare_shifted : ∃ calls : List BeaconCall, ∃ s,
    Run (fun s c s' => s.call (fun _ _ => 0) c = .ok s') (beaconInit 1 zeroTape) calls s ∧
      ((s.neighbours.filter passedOn).length * beaconLayout.size : Nat) ≤ (1023 : Int) ∧
      beaconPrepare s 1023 ≠
        beaconLayout.encodeList ((s.neighbours.filter passedOn).map recordOf) :=
  ⟨_, Run.exists_of_foldlM [.recv (beaconBytes [(2, 0), (1, 1), (3, 1)]) 45 0,
    .recv (beaconBytes [(4, 0), (1, 1), (3, 1)]) 45 100, .recalc 100 zeroTape] (by decide +kernel)⟩

/-! ## The buffer of the sender -/

/-- The places of the buffer that `beacon_prepare` writes: those of `beacon[0]` and so on. -/
def Beacons.written (s : Beacons) (length : Int) : List Nat :=
  (List.range (s.prepared length).length).flatMap fun j =>
    (List.range beaconLayout.size).map (j * beaconLayout.size + ·)

/-- What `beacon_prepare` returns. -/
def Beacons.returned (s : Beacons) (length : Int) : Int :=
  intOf ((s.prepared length).length * beaconLayout.size)

/-- The loop writes a record for each entry to pass on, as long as the record starts in front of
the end of the buffer. -/
theorem length_prepareLoop {table rest : List NeighbourT} {length : Int} {j starts : Nat}
    (hstarts : ∀ j, j * beaconLayout.size < sizeT length ↔ j < starts) :
    (prepareLoop table length j rest).length =
      min (rest.filter passedOn).length (starts - j) := by
  induction rest generalizing j with
  | nil => exact (Nat.zero_min _).symm
  | cons n rest ih =>
    rw [prepareLoop]
    by_cases hroom : j < starts
    · rw [if_pos ((hstarts j).mpr hroom)]
      by_cases hn : passedOn n
      · obtain ⟨hlive, hnear⟩ := passedOn_iff.mp hn
        rw [if_neg hlive, if_neg hnear, List.filter_cons_of_pos hn, List.length_cons,
          List.length_cons, ih]
        omega
      · rw [List.filter_cons_of_neg hn]
        by_cases hlive : n.state = 0
        · rw [if_pos hlive, ih]
        · rw [if_neg hlive, if_pos (not_not.mp fun hnear => hn (passedOn_iff.mpr ⟨hlive, hnear⟩)),
            ih]
    · rw [if_neg fun h => hroom ((hstarts j).mp h), List.length_nil]
      omega

/-- The places written are the first ones, as many as there are bytes of records. -/
theorem Beacons.mem_written {s : Beacons} {length : Int} {p : Nat} :
    p ∈ s.written length ↔ p < (s.prepared length).length * beaconLayout.size := by
  simp only [Beacons.written, List.mem_flatMap, List.mem_range, List.mem_map]
  constructor
  · rintro ⟨j, hj, k, hk, rfl⟩
    calc j * beaconLayout.size + k < (j + 1) * beaconLayout.size := by
          rw [Nat.succ_mul]
          omega
      _ ≤ (s.prepared length).length * beaconLayout.size := Nat.mul_le_mul_right _ hj
  · intro hp
    refine ⟨p / beaconLayout.size, Nat.div_lt_of_lt_mul (by rwa [Nat.mul_comm]),
      p % beaconLayout.size, Nat.mod_lt _ (by decide), Nat.div_add_mod' ..⟩

/-- As many records are written as there are entries to pass on and places to start at. -/
theorem Beacons.length_prepared (s : Beacons) (length : Int) :
    (s.prepared length).length =
      min (s.neighbours.filter passedOn).length ((sizeT length + 14) / beaconLayout.size) := by
  have hstarts : ∀ j, j * beaconLayout.size < sizeT length ↔
      j < (sizeT length + 14) / beaconLayout.size := fun j => by
    rw [beaconLayout_size]
    omega
  exact length_prepareLoop hstarts

/-- What is returned is the number of bytes written. -/
theorem Beacons.returned_eq (s : Beacons) (length : Int) :
    s.returned length = (beaconPrepare s length).length := by
  have hcount := s.length_prepared length
  have hfilter := List.length_filter_le passedOn s.neighbours
  have hmax : s.neighbours.length ≤ 20 := s.length_le
  rw [Beacons.returned, intOf_of_lt (by rw [beaconLayout_size]; omega), beaconPrepare,
    Packed.length_encodeList]

/-- `beacon_prepare` keeps to the buffer exactly when the buffer is a whole number of records long,
or has room for all entries to pass on. -/
theorem beaconPrepare_bound_iff {s : Beacons} {length : Int} (hnonneg : 0 ≤ length)
    (hint : length < 2 ^ 31) :
    ((∀ p ∈ s.written length, (p : Int) < length) ∧ s.returned length ≤ length) ↔
      length % beaconLayout.size = 0 ∨
        ((s.neighbours.filter passedOn).length * beaconLayout.size : Nat) ≤ length := by
  have hsize : sizeT length = length.toNat := by
    rw [sizeT]
    omega
  have hcount := s.length_prepared length
  have hbytes : s.returned length = ((s.prepared length).length * beaconLayout.size : Nat) := by
    rw [s.returned_eq, beaconPrepare, Packed.length_encodeList]
  have hwritten : (∀ p ∈ s.written length, (p : Int) < length) ↔
      ((s.prepared length).length * beaconLayout.size : Nat) ≤ length := by
    simp only [Beacons.mem_written]
    constructor
    · intro h
      by_contra hover
      have hlast := h length.toNat (by omega)
      omega
    · intro h p hp
      omega
  rw [hwritten, hbytes, and_self, hcount, hsize, beaconLayout_size]
  omega

/-- Two records need 30 bytes: a buffer of 31 is kept to, and one of 29 is not. -/
theorem beaconPrepare_bound_iff_skipped :
    ((∀ p ∈ beaconsSkipping.written 31, (p : Int) < 31) ∧ beaconsSkipping.returned 31 ≤ 31) ∧
      ¬ ((∀ p ∈ beaconsSkipping.written 29, (p : Int) < 29) ∧ beaconsSkipping.returned 29 ≤ 29) :=
  ⟨(beaconPrepare_bound_iff (by decide) (by decide)).mpr (by decide),
    (beaconPrepare_bound_iff (by decide) (by decide)).not.mpr (by decide)⟩

/-- Into a buffer of 10 bytes it writes 15, and says so. -/
theorem beaconPrepare_overrun :
    ¬ ∀ (s : Beacons) (length : Int), 0 ≤ length → length < 2 ^ 31 →
      (∀ p ∈ s.written length, (p : Int) < length) ∧ s.returned length ≤ length := by
  intro h
  exact absurd (h (beaconInit 1 zeroTape) 10 (by decide) (by decide)).2 (by decide)

end OldRadio.First
