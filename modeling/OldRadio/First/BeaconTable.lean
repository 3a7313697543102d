import OldRadio.Library.Program
import OldRadio.Library.Transition
import OldRadio.First.Beacon

/-!
# The neighbour table over whole runs

Whatever is received, sent and recalculated, the first entry of the table is the
node itself, at stratum 0, the ids of the entries are distinct, and every other
entry is at stratum 1 or more. So a beacon begins with the record of its sender.
-/

namespace OldRadio.First

open Library

/-! ## What one record does -/

/-- An entry is put into the table, unless it needs a place of its own and there is none. -/
theorem Beacons.store_cases (s : Beacons) (new : NeighbourT) :
    (s.store new = .error .tableFull ∧ new.id ∉ s.ids ∧ s.neighbours.length = maxNeigh) ∨
      ∃ s', s.store new = .ok s' ∧ s'.identifier = s.identifier ∧
        s'.neighbours = upsert NeighbourT.id givesWay new s.neighbours := by
  unfold Beacons.store
  split
  · exact Or.inr ⟨_, rfl, rfl, rfl⟩
  · rename_i hfull
    obtain ⟨hnew, hlen⟩ := not_or.mp hfull
    exact Or.inl ⟨rfl, hnew, le_antisymm s.length_le (Nat.not_lt.mp hlen)⟩

/-- A record is about the node itself, or its entry is put into the table. -/
theorem Beacons.record_cases {s s' : Beacons} {now : Int} {b : BeaconT}
    (h : s.record now b = .ok s') : (b.id = s.identifier ∧ s' = s) ∨
      b.id ≠ s.identifier ∧ s'.identifier = s.identifier ∧
        s'.neighbours = upsert NeighbourT.id givesWay (neighbourOf now b) s.neighbours := by
  unfold Beacons.record at h
  split at h
  · rename_i hself
    cases h
    exact Or.inl ⟨hself, rfl⟩
  · rename_i hself
    rcases s.store_cases (neighbourOf now b) with ⟨herr, -⟩ | ⟨t, hok, hid, htable⟩
    · rw [herr] at h
      cases h
    · cases hok.symm.trans h
      exact Or.inr ⟨hself, hid, htable⟩

/-- The stratum of a neighbour is at least one, also where it does not fit. -/
theorem one_le_neighbourOf_stratum (now : Int) (b : BeaconT) : 1 ≤ (neighbourOf now b).stratum := by
  simp only [neighbourOf]
  split
  · rename_i hlt
    rw [UInt8.le_iff_toNat_le, UInt8.toNat_add]
    have hnat : b.stratum.toNat < 255 := UInt8.lt_iff_toNat_lt.mp hlt
    have hone : (1 : UInt8).toNat = 1 := rfl
    omega
  · rename_i hlt
    have hinf : stratInf ≤ b.stratum := UInt8.not_lt.mp hlt
    have hone : (1 : Strat) ≤ stratInf := by decide
    exact UInt8.le_trans hone hinf

/-- What `beacon_recv` does if no assertion stops it. -/
theorem beaconRecv_cases {s s' : Beacons} {buffer : List UInt8} {length now : Int}
    (h : beaconRecv s buffer length now = .ok s') : s' = s ∨
      ∃ records : List BeaconT, records.foldlM (Beacons.record now) s = .ok s' := by
  unfold beaconRecv at h
  split at h
  · cases h
  split at h
  · cases h
  split at h
  · cases h
  split at h
  · cases h
    exact Or.inl rfl
  dsimp only at h
  split at h
  · cases h
  · exact Or.inr ⟨_, h⟩

/-! ## The invariant -/

/-- The table of the node `id` is in order. -/
structure Beacons.Sound (id : NodeId) (s : Beacons) : Prop where
  /-- `Identifier` is the node. -/
  identifier : s.identifier = id
  /-- The first entry is the node, and the others are further away. -/
  self : ∃ self others, s.neighbours = self :: others ∧ self.id = id ∧ self.state = 1 ∧
    self.stratum = 0 ∧ ∀ n ∈ others, 1 ≤ n.stratum
  /-- No node has two entries. -/
  nodup : s.ids.Nodup

namespace Beacons.Sound

variable {id : NodeId} {s s' : Beacons} {now : Int} {b : BeaconT}

theorem init (id : NodeId) (tape : Nat → Fin randRange) : (beaconInit id tape).Sound id where
  identifier := rfl
  self := ⟨_, [], rfl, rfl, rfl, rfl, fun _ hn => absurd hn List.not_mem_nil⟩
  nodup := List.nodup_singleton _

/-- A record of another node changes no entry but its own, which is not the first one. -/
theorem record (h : s.Sound id) (hs : s.record now b = .ok s') : s'.Sound id := by
  rcases record_cases hs with ⟨-, rfl⟩ | ⟨hother, hid, htable⟩
  · exact h
  obtain ⟨self, others, heq, hself, hstate, hstratum, hothers⟩ := h.self
  have hne : self.id ≠ (neighbourOf now b).id := by
    rw [hself, ← h.identifier]
    exact Ne.symm hother
  refine ⟨hid.trans h.identifier, ⟨self, upsert NeighbourT.id givesWay (neighbourOf now b) others,
    ?_, hself, hstate, hstratum, fun n hn => ?_⟩, ?_⟩
  · rw [htable, heq, upsert_cons, if_neg hne]
  · rcases mem_of_mem_upsert hn with rfl | hn
    · exact one_le_neighbourOf_stratum now b
    · exact hothers n hn
  · rw [ids, htable]
    exact nodup_upsert h.nodup

theorem recv {buffer : List UInt8} {length : Int} (h : s.Sound id)
    (hs : beaconRecv s buffer length now = .ok s') : s'.Sound id := by
  rcases beaconRecv_cases hs with rfl | ⟨records, hs⟩
  · exact h
  · exact foldlM_keeps (I := Beacons.Sound id) (fun _ _ _ _ ht hs => ht.record hs) h hs

end Beacons.Sound

@[simp] theorem expire_id (stampTimeout : Int) (n : NeighbourT) :
    (expire stampTimeout n).id = n.id := by
  unfold expire
  split <;> rfl

@[simp] theorem expire_stratum (stampTimeout : Int) (n : NeighbourT) :
    (expire stampTimeout n).stratum = n.stratum := by
  unfold expire
  split <;> rfl

/-- The own entry changes in its location only, the others expire. -/
theorem recalcTable_cons (energy : List NeighbourT → VLoc → UInt64) (now : Int)
    (tape : Nat → Fin randRange) (self : NeighbourT) (others : List NeighbourT) :
    ∃ vloc, recalcTable energy now tape (self :: others) =
      { self with vloc } :: others.map (expire (now - beaconTimeout)) := by
  rw [recalcTable]
  dsimp only
  split
  · exact ⟨_, rfl⟩
  · exact ⟨self.vloc, rfl⟩

theorem map_id_recalcTable {energy : List NeighbourT → VLoc → UInt64} {now : Int}
    {tape : Nat → Fin randRange} (table : List NeighbourT) :
    (recalcTable energy now tape table).map NeighbourT.id = table.map NeighbourT.id := by
  cases table with
  | nil => rfl
  | cons self others =>
    obtain ⟨vloc, heq⟩ := recalcTable_cons energy now tape self others
    rw [heq, List.map_cons, List.map_cons, List.map_map]
    exact congrArg _ (List.map_congr_left fun n _ => expire_id _ n)

theorem Beacons.Sound.recalc {energy : List NeighbourT → VLoc → UInt64} {id : NodeId} {s : Beacons}
    {now : Int} {tape : Nat → Fin randRange} (h : s.Sound id) :
    (beaconRecalc energy s now tape).Sound id := by
  obtain ⟨self, others, heq, hself, hstate, hstratum, hothers⟩ := h.self
  obtain ⟨vloc, htable⟩ := recalcTable_cons energy now tape self others
  refine ⟨h.identifier, ⟨{ self with vloc }, others.map (expire (now - beaconTimeout)), ?_, hself,
    hstate, hstratum, fun n hn => ?_⟩, ?_⟩
  · exact (congrArg (recalcTable energy now tape) heq).trans htable
  · obtain ⟨m, hm, rfl⟩ := List.mem_map.mp hn
    rw [expire_stratum]
    exact hothers m hm
  · rw [ids, beaconRecalc, map_id_recalcTable]
    exact h.nodup

/-! ## Every run -/

/-- The calls that the programs make after `beacon_init`. -/
inductive BeaconCall where
  /-- `beacon_recv`, on the memory from `buffer` on. -/
  | recv (buffer : List UInt8) (length now : Int)
  /-- `beacon_prepare`, into a buffer. -/
  | prepare (length : Int)
  /-- `beacon_recalc`. -/
  | recalc (now : Int) (tape : Nat → Fin randRange)

/-- A call; `beacon_prepare` leaves the table alone. -/
def Beacons.call (energy : List NeighbourT → VLoc → UInt64) (s : Beacons) :
    BeaconCall → Except BeaconAbort Beacons
  | .recv buffer length now => beaconRecv s buffer length now
  | .prepare _ => .ok s
  | .recalc now tape => .ok (beaconRecalc energy s now tape)

variable {energy : List NeighbourT → VLoc → UInt64} {id : NodeId} {s s' : Beacons}

theorem Beacons.Sound.call {c : BeaconCall} (h : s.Sound id) (hs : s.call energy c = .ok s') :
    s'.Sound id := by
  cases c with
  | recv buffer length now => exact h.recv hs
  | prepare length =>
    cases hs
    exact h
  | recalc now tape =>
    cases hs
    exact h.recalc

/-- A beacon begins with the record of its sender, if the buffer has any room. -/
theorem Beacons.Sound.prepared_cases (length : Int) (h : s.Sound id) :
    (sizeT length = 0 ∧ s.prepared length = []) ∨
      ∃ first rest, s.prepared length = first :: rest ∧ first.id = id ∧ first.stratum = 0 := by
  obtain ⟨self, others, heq, hself, hstate, hstratum, -⟩ := h.self
  have hlive : ¬ self.state = 0 := by
    rw [hstate]
    decide
  have hnear : ¬ (maxStrat ≤ self.stratum ∧ self.stratum ≠ stratInf) := by
    rw [hstratum]
    decide
  rw [Beacons.prepared, heq, prepareLoop, if_neg hlive, if_neg hnear, Nat.zero_mul]
  split
  · exact Or.inr ⟨_, _, rfl, hself, hstratum⟩
  · rename_i hfull
    exact Or.inl ⟨Nat.eq_zero_of_not_pos hfull, rfl⟩

/-- The bytes of a beacon spell the record of its sender first. -/
theorem Beacons.Sound.beaconPrepare_head {length : Int} (h : s.Sound id)
    (hs : beaconPrepare s length ≠ []) : (beaconLayout.decode (beaconPrepare s length)).id = id ∧
      (beaconLayout.decode (beaconPrepare s length)).stratum = 0 := by
  rw [beaconPrepare] at hs ⊢
  rcases h.prepared_cases length with ⟨-, hnil⟩ | ⟨first, rest, hcons, hid, hstratum⟩
  · rw [hnil] at hs
    exact absurd rfl hs
  · rw [hcons, Packed.encodeList, List.flatMap_cons, Packed.decode_encode]
    exact ⟨hid, hstratum⟩

/-- After every run from `beacon_init` the table is in order, and so is the front of every beacon
made from it. -/
theorem neighbours_invariant {tape : Nat → Fin randRange} {calls : List BeaconCall}
    (h : Run (fun s c s' => s.call energy c = .ok s') (beaconInit id tape) calls s) :
    1 ≤ s.neighbours.length ∧ s.neighbours.length ≤ maxNeigh ∧
      (∃ self others, s.neighbours = self :: others ∧ self.id = id ∧ self.state = 1 ∧
        self.stratum = 0 ∧ ∀ n ∈ others, 1 ≤ n.stratum) ∧
      (s.neighbours.map NeighbourT.id).Nodup ∧
      ∀ length, beaconPrepare s length ≠ [] →
        (beaconLayout.decode (beaconPrepare s length)).id = id ∧
          (beaconLayout.decode (beaconPrepare s length)).stratum = 0 := by
  have hsound : s.Sound id := h.keeps (fun _ _ _ hs hc => hs.call hc) (.init id tape)
  refine ⟨?_, s.length_le, hsound.self, hsound.nodup, fun _ hne => hsound.beaconPrepare_head hne⟩
  obtain ⟨self, others, heq, -⟩ := hsound.self
  rw [heq, List.length_cons]
  exact Nat.le_add_left 1 others.length

/-- Draws of `rand` that are all zero. -/
def zeroTape : Nat → Fin randRange := fun _ => ⟨0, by decide⟩

/-- The bytes of a beacon with these ids and strata, all at the origin. -/
def beaconBytes (records : List (NodeId × Strat)) : List UInt8 :=
  beaconLayout.encodeList (records.map fun r => { id := r.1, stratum := r.2, vloc := fun _ => 0 })

/-- Node 1 hears node 2, which hears it, sends a beacon, and recalculates its location. -/
theorem neighbours_invariant_twoNodes : ∃ s : Beacons, s.neighbours.length = 2 ∧
    (∃ self others, s.neighbours = self :: others ∧ self.id = 1 ∧ self.state = 1 ∧
      self.stratum = 0 ∧ ∀ n ∈ others, 1 ≤ n.stratum) := by
  obtain ⟨s, hrun, hlen⟩ := Run.exists_of_foldlM (f := Beacons.call fun _ _ => 0)
    [.recv (beaconBytes [(2, 0), (1, 1)]) 30 5, .prepare 1023, .recalc 7 zeroTape]
    (s := beaconInit 1 zeroTape) (P := fun s => s.neighbours.length = 2) (by decide +kernel)
  exact ⟨s, hlen, (neighbours_invariant hrun).2.2.1⟩

end OldRadio.First
