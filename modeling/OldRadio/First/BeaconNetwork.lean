import Mathlib.Data.Fintype.Card
import OldRadio.First.BeaconSender

/-!
# Networks of the first version

Nodes that send each other beacons. A beacon that was sent may reach any other
node at any later time, any number of times or never, and between its calls a
node may recalculate its location. Every beacon is well formed, so the one
assertion of `beacon_recv` that can fail is the one on the room in the table. It
fails exactly when the beacon has more new ids than the table has places, and
never in a network of at most `MAXNEIGH` nodes.
-/

namespace OldRadio.First

open Library

/-- The nodes of a network, and every beacon sent so far with its sender. -/
structure Network (ι : Type) where
  /-- What each node knows. -/
  nodes : ι → Beacons
  /-- The beacons, latest first. -/
  air : List (ι × List UInt8)

/-- What may happen in a network. -/
inductive NetworkAction (ι : Type) where
  /-- A node sends what `beacon_prepare` writes into a buffer. -/
  | prepare (i : ι) (length : Int)
  /-- A beacon of `i` reaches `j`; other bytes stand behind it in memory. -/
  | deliver (i : ι) (beacon : List UInt8) (j : ι) (behind : List UInt8) (now : Int)
  /-- A node calls `beacon_recalc`. -/
  | recalc (i : ι) (now : Int) (tape : Nat → Fin randRange)

/-- Why an action does not happen. -/
inductive NetworkStop where
  /-- There is no such buffer or no such beacon. -/
  | disabled
  /-- `beacon_recv` stops the receiver. -/
  | assertion (e : BeaconAbort)
  deriving DecidableEq, Repr

namespace Network

variable {ι : Type} [DecidableEq ι]

/-- The network after every node has called `beacon_init`. -/
def start (id : ι → NodeId) (tapes : ι → Nat → Fin randRange) : Network ι where
  nodes i := beaconInit (id i) (tapes i)
  air := []

/-- An action. -/
def step (energy : List NeighbourT → VLoc → UInt64) (net : Network ι) :
    NetworkAction ι → Except NetworkStop (Network ι)
  | .prepare i length =>
    if 0 < length ∧ length < 2 ^ 31 then
      .ok { net with air := (i, beaconPrepare (net.nodes i) length) :: net.air }
    else .error .disabled
  | .deliver i beacon j behind now =>
    if (i, beacon) ∈ net.air ∧ i ≠ j then
      match beaconRecv (net.nodes j) (beacon ++ behind) beacon.length now with
      | .ok s => .ok { net with nodes := Function.update net.nodes j s }
      | .error e => .error (.assertion e)
    else .error .disabled
  | .recalc i now tape =>
    .ok { net with
      nodes := Function.update net.nodes i (beaconRecalc energy (net.nodes i) now tape) }

/-- The records of a beacon. -/
def recordsOf (beacon : List UInt8) : List BeaconT :=
  beaconLayout.decodeList (beacon.length / beaconLayout.size) beacon

/-- If a beacon is delivered, the receiver has room for what it records of it. -/
def HasRoom (net : Network ι) : NetworkAction ι → Prop
  | .deliver i beacon j _ _ => (i, beacon) ∈ net.air ∧ i ≠ j →
    (net.nodes j).HasRoom (heard (net.nodes j).identifier (recordsOf beacon))
  | _ => True

end Network

/-! ## What is sent -/

theorem length_prepareLoop_le (table rest : List NeighbourT) (length : Int) (j : Nat) :
    (prepareLoop table length j rest).length ≤ rest.length := by
  induction rest generalizing j with
  | nil => exact Nat.le_refl 0
  | cons n rest ih =>
    rw [prepareLoop, List.length_cons]
    split
    · split
      · exact (ih j).trans (Nat.le_succ _)
      · split
        · exact (ih j).trans (Nat.le_succ _)
        · exact Nat.succ_le_succ (ih (j + 1))
    · exact Nat.zero_le _

/-- A beacon passes on no id that is not in the table. -/
theorem mem_prepareLoop {table rest : List NeighbourT} {length : Int} {j : Nat} {b : BeaconT}
    (h : b ∈ prepareLoop table length j rest) : ∃ n ∈ rest, n.id = b.id := by
  induction rest generalizing j with
  | nil => cases h
  | cons n rest ih =>
    rw [List.exists_mem_cons_iff]
    rw [prepareLoop] at h
    split at h
    · split at h
      · exact Or.inr (ih h)
      · split at h
        · exact Or.inr (ih h)
        · rcases List.mem_cons.mp h with rfl | h
          · exact Or.inl rfl
          · exact Or.inr (ih h)
    · cases h

/-- The bytes are a beacon of the node `id`. -/
structure BeaconOf (id : NodeId) (bytes : List UInt8) (records : List BeaconT) : Prop where
  /-- The bytes spell the records. -/
  spells : bytes = beaconLayout.encodeList records
  /-- The first record is the sender's. -/
  sender : ∃ first rest, records = first :: rest ∧ first.id = id ∧ first.stratum = 0
  /-- There are no more records than a table has entries. -/
  length_le : records.length ≤ maxNeigh

theorem Beacons.Sound.beaconOf {id : NodeId} {s : Beacons} {length : Int} (h : s.Sound id)
    (hlength : 0 < length ∧ length < 2 ^ 31) :
    BeaconOf id (beaconPrepare s length) (s.prepared length) := by
  refine ⟨rfl, ?_, (length_prepareLoop_le _ _ _ _).trans s.length_le⟩
  refine (h.prepared_cases length).resolve_left fun ⟨hzero, _⟩ => ?_
  rw [sizeT] at hzero
  omega

namespace BeaconOf

variable {id : NodeId} {bytes behind : List UInt8} {records : List BeaconT} {s : Beacons}
  {now : Int}

theorem recordsOf_eq (h : BeaconOf id bytes records) : Network.recordsOf bytes = records := by
  rw [Network.recordsOf, h.spells, Packed.length_encodeList, Nat.mul_div_cancel _ (by decide)]
  simpa using beaconLayout.decodeList_encodeList records []

/-- Its reception is the recording of its records. -/
theorem beaconRecv_eq (h : BeaconOf id bytes records) (hother : id ≠ s.identifier) :
    beaconRecv s (bytes ++ behind) bytes.length now =
      (heard s.identifier records).foldlM (Beacons.record now) s := by
  obtain ⟨first, rest, rfl, hid, hstratum⟩ := h.sender
  have hle : rest.length + 1 ≤ 20 := h.length_le
  rw [h.spells, Packed.length_encodeList]
  refine beaconRecv_encodeList ?_ hstratum (by rwa [hid])
  rw [beaconLayout_size]
  omega

/-- It is recorded if there is room for it, and else stops the receiver at the full table. -/
theorem beaconRecv_cases (h : BeaconOf id bytes records) (hother : id ≠ s.identifier)
    (behind : List UInt8) (now : Int) :
    (beaconRecv s (bytes ++ behind) bytes.length now = .error .tableFull ∧
        ¬ s.HasRoom (heard s.identifier (Network.recordsOf bytes))) ∨
      ∃ s', beaconRecv s (bytes ++ behind) bytes.length now = .ok s' ∧
        s.HasRoom (heard s.identifier (Network.recordsOf bytes)) := by
  rw [h.beaconRecv_eq hother, h.recordsOf_eq]
  exact s.foldlM_record_cases now _

end BeaconOf

/-! ## Every run -/

namespace Network

variable {ι : Type} [DecidableEq ι] {energy : List NeighbourT → VLoc → UInt64} {id : ι → NodeId}
  {net net' : Network ι}

/-- Every table is in order, everything sent is a beacon, and nobody has heard of strangers. -/
structure Sound (id : ι → NodeId) (net : Network ι) : Prop where
  /-- The tables. -/
  nodes : ∀ i, (net.nodes i).Sound (id i)
  /-- The beacons. -/
  air : ∀ i bytes, (i, bytes) ∈ net.air → ∃ records, BeaconOf (id i) bytes records ∧
    ∀ b ∈ records, b.id ∈ Set.range id
  /-- The ids in the tables. -/
  known : ∀ i, ∀ n ∈ (net.nodes i).neighbours, n.id ∈ Set.range id

omit [DecidableEq ι] in
theorem Sound.start (id : ι → NodeId) (tapes : ι → Nat → Fin randRange) :
    (Network.start id tapes).Sound id where
  nodes i := .init (id i) (tapes i)
  air _ _ h := absurd h List.not_mem_nil
  known i n hn := by
    obtain rfl := List.mem_singleton.mp hn
    exact ⟨i, rfl⟩

/-- A node may change to another state in which its table is in order and names no strangers. -/
theorem Sound.update (h : net.Sound id) {i : ι} {s : Beacons} (hs : s.Sound (id i))
    (hknown : ∀ n ∈ s.neighbours, n.id ∈ Set.range id) :
    Sound id { net with nodes := Function.update net.nodes i s } where
  nodes := (Function.forall_update_iff net.nodes fun j t => t.Sound (id j)).mpr
    ⟨hs, fun j _ => h.nodes j⟩
  air := h.air
  known := (Function.forall_update_iff net.nodes fun _ t => ∀ n ∈ t.neighbours,
    n.id ∈ Set.range id).mpr ⟨hknown, fun j _ => h.known j⟩

omit [DecidableEq ι] in
/-- What a node records names no strangers if the records do not. -/
theorem known_record {s s' : Beacons} {now : Int} {b : BeaconT} (h : s.record now b = .ok s')
    (hb : b.id ∈ Set.range id) (hs : ∀ n ∈ s.neighbours, n.id ∈ Set.range id) :
    ∀ n ∈ s'.neighbours, n.id ∈ Set.range id := by
  rcases Beacons.record_cases h with ⟨-, rfl⟩ | ⟨-, -, htable⟩
  · exact hs
  · intro n hn
    rw [htable] at hn
    rcases mem_of_mem_upsert hn with rfl | hn
    · exact hb
    · exact hs n hn

theorem mem_of_mem_heard {i : NodeId} {records : List BeaconT} {b : BeaconT}
    (h : b ∈ heard i records) : ∃ b' ∈ records, b'.id = b.id := by
  cases records with
  | nil => cases h
  | cons first rest =>
    rw [heard] at h
    split at h
    · exact ⟨b, h, rfl⟩
    · obtain rfl := List.mem_singleton.mp h
      exact ⟨first, List.mem_cons_self, rfl⟩

theorem Sound.step {a : NetworkAction ι} (hid : Function.Injective id) (h : net.Sound id)
    (hs : net.step energy a = .ok net') : net'.Sound id := by
  cases a with
  | prepare i length =>
    rw [Network.step] at hs
    split at hs
    · rename_i hlength
      cases hs
      refine ⟨h.nodes, fun j bytes hmem => ?_, h.known⟩
      rcases List.mem_cons.mp hmem with heq | hmem
      · cases heq
        refine ⟨_, (h.nodes i).beaconOf hlength, fun b hb => ?_⟩
        obtain ⟨n, hn, hnb⟩ := mem_prepareLoop hb
        rw [← hnb]
        exact h.known i n hn
      · exact h.air j bytes hmem
    · cases hs
  | deliver i beacon j behind now =>
    rw [Network.step] at hs
    split at hs
    · rename_i henabled
      split at hs
      · rename_i s hrecv
        cases hs
        refine h.update ((h.nodes j).recv hrecv) ?_
        obtain ⟨records, hbeacon, hknown⟩ := h.air i beacon henabled.1
        have hother : id i ≠ (net.nodes j).identifier := by
          rw [(h.nodes j).identifier]
          exact hid.ne henabled.2
        rw [hbeacon.beaconRecv_eq hother] at hrecv
        refine foldlM_keeps (I := fun t => ∀ n ∈ t.neighbours, n.id ∈ Set.range id)
          (fun b hb t t' ht hrecord => known_record hrecord ?_ ht) (h.known j) hrecv
        obtain ⟨b', hb', hbb⟩ := mem_of_mem_heard hb
        rw [← hbb]
        exact hknown b' hb'
      · cases hs
    · cases hs
  | recalc i now tape =>
    cases hs
    refine h.update (h.nodes i).recalc fun n hn => ?_
    have hmem : n.id ∈ ((net.nodes i).neighbours).map NeighbourT.id := by
      rw [← map_id_recalcTable]
      exact List.mem_map_of_mem hn
    obtain ⟨m, hm, hmn⟩ := List.mem_map.mp hmem
    rw [← hmn]
    exact h.known i m hm

/-- An action fails an assertion exactly when it delivers a beacon for which there is no room. -/
theorem Sound.step_assertion_iff (hid : Function.Injective id) (h : net.Sound id)
    (a : NetworkAction ι) :
    (∀ e, net.step energy a ≠ .error (.assertion e)) ↔ net.HasRoom a := by
  cases a with
  | prepare i length =>
    refine iff_of_true (fun e he => ?_) trivial
    rw [Network.step] at he
    split at he
    · cases he
    · cases he
  | deliver i beacon j behind now =>
    rw [Network.step, HasRoom]
    split
    · rename_i henabled
      rw [forall_prop_of_true henabled]
      obtain ⟨records, hbeacon, -⟩ := h.air i beacon henabled.1
      have hother : id i ≠ (net.nodes j).identifier := by
        rw [(h.nodes j).identifier]
        exact hid.ne henabled.2
      rcases hbeacon.beaconRecv_cases hother behind now with
        ⟨herr, hfull⟩ | ⟨s', hok, hroom⟩
      · rw [herr]
        exact iff_of_false (fun hnone => hnone _ rfl) hfull
      · rw [hok]
        exact iff_of_true (fun e he => by cases he) hroom
    · rename_i hdisabled
      exact iff_of_true (fun e he => by cases he) fun henabled => absurd henabled hdisabled
  | recalc i now tape => exact iff_of_true (fun e he => by cases he) trivial

/-- In every run of every network, the next action fails no assertion of `beacon_recv` exactly when
the receiver has room for what it is handed. -/
theorem beaconRecv_room {tapes : ι → Nat → Fin randRange} {actions : List (NetworkAction ι)}
    (hid : Function.Injective id)
    (h : Run (fun net a net' => net.step energy a = .ok net') (start id tapes) actions net)
    (a : NetworkAction ι) :
    (∀ e, net.step energy a ≠ .error (.assertion e)) ↔ net.HasRoom a :=
  (h.keeps (I := Sound id) (fun _ _ _ hs hstep => hs.step hid hstep)
    (.start id tapes)).step_assertion_iff hid a

omit [DecidableEq ι] in
/-- A table that names no strangers has room for records that name none, if a table has room for the
whole network. -/
theorem hasRoom_of_card_le [Fintype ι] (hcard : Fintype.card ι ≤ maxNeigh) {s : Beacons}
    {records : List BeaconT} (hnodup : s.ids.Nodup)
    (hs : ∀ n ∈ s.neighbours, n.id ∈ Set.range id) (hr : ∀ b ∈ records, b.id ∈ Set.range id) :
    s.HasRoom records := by
  have hdisjoint : Disjoint s.ids.toFinset (s.newIds records) :=
    Finset.disjoint_left.mpr fun k hold hnew =>
      (Beacons.mem_newIds.mp hnew).2.2 (List.mem_toFinset.mp hold)
  have hall : s.ids.toFinset ∪ s.newIds records ⊆ Finset.univ.image id := by
    intro k hk
    suffices k ∈ Set.range id by simpa using this
    rcases Finset.mem_union.mp hk with hold | hnew
    · obtain ⟨n, hn, rfl⟩ := List.mem_map.mp (List.mem_toFinset.mp hold)
      exact hs n hn
    · obtain ⟨⟨b, hb, rfl⟩, -⟩ := Beacons.mem_newIds.mp hnew
      exact hr b hb
  calc s.neighbours.length + (s.newIds records).card
      = (s.ids.toFinset ∪ s.newIds records).card := by
        rw [Finset.card_union_of_disjoint hdisjoint, List.toFinset_card_of_nodup hnodup,
          Beacons.ids, List.length_map]
    _ ≤ (Finset.univ.image id).card := Finset.card_le_card hall
    _ ≤ maxNeigh := Finset.card_image_le.trans hcard

/-- In a network of at most `MAXNEIGH` nodes no assertion ever fails. -/
theorem noAssertion_of_card_le [Fintype ι] (hcard : Fintype.card ι ≤ maxNeigh)
    {tapes : ι → Nat → Fin randRange} {actions : List (NetworkAction ι)}
    (hid : Function.Injective id)
    (h : Run (fun net a net' => net.step energy a = .ok net') (start id tapes) actions net)
    (a : NetworkAction ι) (e : BeaconAbort) : net.step energy a ≠ .error (.assertion e) := by
  have hsound : net.Sound id :=
    h.keeps (I := Sound id) (fun _ _ _ hs hstep => hs.step hid hstep) (.start id tapes)
  refine (hsound.step_assertion_iff hid a).mpr ?_ e
  cases a with
  | prepare i length => trivial
  | deliver i beacon j behind now =>
    intro henabled
    obtain ⟨records, hbeacon, hknown⟩ := hsound.air i beacon henabled.1
    refine hasRoom_of_card_le hcard (hsound.nodes j).nodup (hsound.known j) fun b hb => ?_
    rw [hbeacon.recordsOf_eq] at hb
    obtain ⟨b', hb', hbb⟩ := mem_of_mem_heard hb
    rw [← hbb]
    exact hknown b' hb'
  | recalc i now tape => trivial

/-- Of two nodes one hears the other once and then again. -/
theorem beaconRecv_room_twoNodes : ∃ net : Network (Fin 2),
    (net.nodes (Fin.ofNat 2 0)).neighbours.length = 2 ∧
      ((∀ e, net.step (fun _ _ => 0) (.deliver (Fin.ofNat 2 1)
        (beaconPrepare (beaconInit 1 zeroTape) 1023) (Fin.ofNat 2 0) [] 3) ≠
          .error (.assertion e)) ↔
        net.HasRoom (.deliver (Fin.ofNat 2 1)
          (beaconPrepare (beaconInit 1 zeroTape) 1023) (Fin.ofNat 2 0) [] 3)) := by
  obtain ⟨net, hrun, hlen⟩ := Run.exists_of_foldlM (f := step fun _ _ => 0)
    [.prepare (Fin.ofNat 2 1) 1023, .deliver (Fin.ofNat 2 1)
      (beaconPrepare (beaconInit 1 zeroTape) 1023) (Fin.ofNat 2 0) [] 2]
    (s := start (fun i : Fin 2 => UInt16.ofNat i) fun _ => zeroTape)
    (P := fun net => (net.nodes (Fin.ofNat 2 0)).neighbours.length = 2) (by decide +kernel)
  exact ⟨net, hlen, beaconRecv_room (by decide) hrun _⟩

/-- Node 0 hears `n` others, one after the other. -/
def hearAll (n : Nat) : List (NetworkAction (Fin 21)) :=
  (List.range n).flatMap fun k =>
    [.prepare (Fin.ofNat 21 (k + 1)) 1023,
      .deliver (Fin.ofNat 21 (k + 1))
        (beaconPrepare (beaconInit (UInt16.ofNat (k + 1)) zeroTape) 1023) (Fin.ofNat 21 0) [] 0]

/-- In a network of 21 nodes, one that hears all the others has no room for the last one. -/
theorem beaconRecv_full : ∃ actions : List (NetworkAction (Fin 21)), ∃ net,
    Run (fun net a net' => net.step (fun _ _ => 0) a = .ok net')
        (start (fun i : Fin 21 => UInt16.ofNat i) fun _ => zeroTape) actions net ∧
      (net.step (fun _ _ => 0) (.deliver (Fin.ofNat 21 20)
        (beaconPrepare (beaconInit 20 zeroTape) 1023) (Fin.ofNat 21 0) [] 0)).map (fun _ => ()) =
        .error (.assertion .tableFull) :=
  ⟨_, Run.exists_of_foldlM (hearAll 19 ++ [.prepare (Fin.ofNat 21 20) 1023]) (by decide +kernel)⟩

end Network

end OldRadio.First
