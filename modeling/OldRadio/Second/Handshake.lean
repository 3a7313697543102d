import OldRadio.Second.HopCounts

/-!
# The handshake of two neighbours

A node that hears a beacon without itself in it marks the sender, and lists the
mark in its own beacon; a node that sees itself at stratum 1 or marked takes the
link. A beacon lists the first twelve of the neighbours that it may list. It
refreshes its sender unless a nearer entry stands for it, and the mark lasts
until another node reports the sender at a finite stratum.
-/

namespace OldRadio.Second

open Library
open Node (M)

/-- A well-formed beacon: its sender at stratum 0, and entries that `node_beacon` lists. -/
structure BeaconFrom (data : List UInt8) (first : Neigh) (listed : List Neigh) : Prop where
  /-- The beacon has these entries. -/
  parse : beaconParse data = .ok (first :: listed)
  /-- The sender comes first. -/
  sender : first.stratum = 0
  /-- The other entries are of the strata that are listed. -/
  lists : ∀ n ∈ listed, beaconLists n = true

/-! ## What a beacon lists -/

/-- The neighbours that the beacon of a node lists. -/
def Node.listed (node : Node) : List Neigh :=
  ((neighIter node.neighTable).filter beaconLists).take 12

/-- The beacons of a node are well-formed. -/
theorem beaconFrom_beaconData (node : Node) :
    BeaconFrom (beaconData node) node.asNeigh node.listed where
  parse := beaconParse_beaconData node
  sender := rfl
  lists _ hn := (List.mem_filter.mp (List.mem_of_mem_take hn)).2

/-- A direct neighbour is one that a beacon may list. -/
theorem beaconLists_of_direct {n : Neigh} (h : n.stratum = 1 ∨ n.stratum = neighStratumInf) :
    beaconLists n = true := by
  rcases h with h | h
  · rw [beaconLists, h]
    decide
  · rw [beaconLists, h]
    decide

/-- A beacon lists every direct neighbour before which the table has fewer than twelve live entries
that it may list, at the place they leave, and lists no more than twelve. -/
theorem beacon_lists_first (node : Node) :
    ∃ listed, beaconParse (beaconData node) = .ok (node.asNeigh :: listed) ∧
      listed.length ≤ 12 ∧
      ∀ before n after, neighIter node.neighTable = before ++ n :: after →
        n.stratum = 1 ∨ n.stratum = neighStratumInf → before.countP beaconLists < 12 →
        listed[before.countP beaconLists]? = some n := by
  refine ⟨node.listed, beaconParse_beaconData node, List.length_take_le 12 _, ?_⟩
  intro before n after hiter hdirect hfew
  rw [Node.listed, hiter, List.getElem?_take_of_lt hfew, List.filter_append,
    List.filter_cons_of_pos (beaconLists_of_direct hdirect), List.countP_eq_length_filter,
    List.getElem?_append_right le_rfl, Nat.sub_self, List.getElem?_cons_zero]

/-- A node that has heard thirteen others directly. -/
def nodeCrowded : Node :=
  { nodeListening with
    neighTable :=
      { entries := (List.range 13).map fun i =>
          neighStored { id := UInt16.ofNat (i + 1), stratum := 1, loc := locZero } 0
        length_le := by decide } }

/-- The beacon of such a node leaves out the last one. -/
theorem beacon_lists_crowded : ¬ ∀ (node : Node) (n : Neigh), n ∈ neighIter node.neighTable →
    n.stratum = 1 ∨ n.stratum = neighStratumInf →
    ∃ neighs, beaconParse (beaconData node) = .ok neighs ∧ n ∈ neighs := by
  intro hall
  obtain ⟨neighs, hparse, hmem⟩ := hall nodeCrowded ⟨13, 1, locZero⟩ (by decide) (Or.inl rfl)
  cases (beaconParse_beaconData nodeCrowded).symm.trans hparse
  revert hmem
  decide

/-! ## What a beacon does to its sender's entry -/

section Sender

variable {id : NodeId} {vtime : VTime} {table table' : NeighTable} {first : Neigh}
  {listed : List Neigh} {data : List UInt8} {inserts : List BeaconInsert}

/-- Insertions for other nodes leave an entry alone. -/
theorem insertAll_entryOf_of_ne (h : insertAll vtime table inserts = .ok table')
    (hne : ∀ i ∈ inserts, i.neigh.id ≠ id) : table'.entryOf id = table.entryOf id := by
  refine foldlM_keeps (I := fun t => t.entryOf id = table.entryOf id) ?_ rfl h
  intro i hi t t' ht hinsert
  rw [neighTableInsert_entryOf_of_ne hinsert (hne i hi).symm, ht]

/-- Insertions from further away leave a near entry alone. -/
theorem insertAll_entryOf_of_near {old : NeighEntry}
    (h : insertAll vtime table inserts = .ok table') (hold : table.entryOf id = some old)
    (hnear : old.neigh.stratum ≤ 1)
    (hfar : ∀ i ∈ inserts, i.neigh.id = id → 1 < i.neigh.stratum) :
    table'.entryOf id = some old := by
  refine foldlM_keeps (I := fun t => t.entryOf id = some old) ?_ hold h
  intro i hi t t' ht hinsert
  by_cases hid : i.neigh.id = id
  · have hkept : ¬ neighReplaces i.neigh old.neigh = true := fun hreplaces =>
      absurd (UInt8.le_trans ((neighReplaces_near hnear).mp hreplaces) hnear)
        (UInt8.not_le.mpr (hfar i hi hid))
    rw [← hid, neighTableInsert_entryOf_self hinsert, hid, ht, settled_some]
    exact congrArg some (if_neg hkept)
  · rw [neighTableInsert_entryOf_of_ne hinsert (Ne.symm hid), ht]

theorem one_le_of_ne_zero {s : Stratum} (h : s ≠ 0) : 1 ≤ s := by
  have hne : s.toNat ≠ 0 := fun he => h (UInt8.toNat_inj.mp he)
  rw [UInt8.le_iff_toNat_le]
  exact Nat.one_le_iff_ne_zero.mpr hne

/-- What is listed and not marked is stored at stratum 2 or 3. -/
theorem one_lt_further {n : Neigh} (hlists : beaconLists n = true)
    (hinf : n.stratum ≠ neighStratumInf) : 1 < (beaconFurther n).neigh.stratum := by
  simp only [beaconLists, Bool.or_eq_true, Bool.and_eq_true, decide_eq_true_eq, beq_iff_eq,
    nodeBeaconMaxstrat, UInt8.le_iff_toNat_le] at hlists
  obtain ⟨hpos, hle⟩ := hlists.resolve_right hinf
  have hone : (1 : UInt8).toNat = 1 := rfl
  have htwo : (2 : UInt8).toNat = 2 := rfl
  have hne : n.stratum ≠ 255 := by
    rintro h
    rw [h] at hle
    exact absurd hle (by decide)
  rw [beaconFurther, UInt8.lt_iff_toNat_lt, toNat_succ_of_ne hne]
  omega

/-- A beacon that sees its receiver brings its sender at stratum 1, and then entries that are
further away. -/
theorem BeaconFrom.inserts_of_sees (h : BeaconFrom data first listed) (hother : first.id ≠ id)
    (hsees : beaconSeesSelf id (first :: listed) = true) :
    beaconInserts id (first :: listed) =
        beaconFurther first :: (recordedNeighs id listed).map beaconFurther ∧
      (beaconFurther first).neigh = { first with stratum := 1 } ∧
      ∀ i ∈ (recordedNeighs id listed).map beaconFurther, 1 < i.neigh.stratum := by
  refine ⟨?_, ?_, fun i hi => ?_⟩
  · have hfirst : first.id ≠ id ∧ first.stratum ≠ neighStratumInf :=
      ⟨hother, by rw [h.sender]; decide⟩
    rw [beaconInserts, if_pos hsees, recordedNeighs,
      List.filter_cons_of_pos (by simpa using hfirst), List.map_cons]
    rfl
  · rw [beaconFurther, h.sender]
    rfl
  · obtain ⟨n, hn, rfl⟩ := List.mem_map.mp hi
    obtain ⟨hmem, hrecorded⟩ := List.mem_filter.mp hn
    exact one_lt_further (h.lists n hmem) (of_decide_eq_true hrecorded).2

/-- A beacon that does not see its receiver marks its sender. -/
theorem beaconInserts_of_not_sees (hsees : ¬ beaconSeesSelf id (first :: listed) = true) :
    beaconInserts id (first :: listed) = [beaconMarked first] := by
  rw [beaconInserts, if_neg hsees]
  rfl

/-- A beacon that sees its receiver leaves its sender at stratum 1, unless it was at stratum 0. -/
theorem BeaconFrom.entryOf_of_sees (h : BeaconFrom data first listed) (hother : first.id ≠ id)
    (hsees : beaconSeesSelf id (first :: listed) = true)
    (hins : insertAll vtime table (beaconInserts id (first :: listed)) = .ok table')
    (hold : ∀ old, table.entryOf first.id = some old → old.neigh.stratum ≠ 0) :
    table'.entryOf first.id = some (neighStored { first with stratum := 1 } vtime) := by
  obtain ⟨hinserts, hneigh, hfar⟩ := h.inserts_of_sees hother hsees
  rw [hinserts, insertAll_cons, hneigh] at hins
  obtain ⟨table₁, hfirst, hrest⟩ := bind_eq_ok hins
  have hstored : table₁.entryOf first.id =
      some (neighStored { first with stratum := 1 } vtime) := by
    have hself := neighTableInsert_entryOf_self hfirst
    cases hentry : table.entryOf first.id with
    | none =>
      rw [hentry] at hself
      exact hself
    | some old =>
      have hreplaces : neighReplaces { first with stratum := 1 } old.neigh = true :=
        neighReplaces_iff.mpr (Or.inl (one_le_of_ne_zero (hold old hentry)))
      rw [hentry] at hself
      exact hself.trans (congrArg some (if_pos hreplaces))
  exact insertAll_entryOf_of_near hrest hstored (UInt8.le_refl 1) fun i hi _ => hfar i hi

/-- A beacon that does not see its receiver marks its sender, unless it was near. -/
theorem entryOf_of_not_sees (hsees : ¬ beaconSeesSelf id (first :: listed) = true)
    (hins : insertAll vtime table (beaconInserts id (first :: listed)) = .ok table') :
    table'.entryOf first.id = some (settled entryReplaces
      (neighStored { first with stratum := neighStratumInf } vtime) (table.entryOf first.id)) := by
  rw [beaconInserts_of_not_sees hsees, insertAll_cons] at hins
  obtain ⟨table₁, hfirst, hrest⟩ := bind_eq_ok hins
  cases hrest
  exact neighTableInsert_entryOf_self hfirst

end Sender

/-! ## What a beacon refreshes -/

/-- The stratum at which a beacon leaves its sender. -/
def senderStratum (id : NodeId) (neighs : List Neigh) : Stratum :=
  if beaconSeesSelf id neighs then 1 else neighStratumInf

/-- What a beacon that is not dropped does to its sender's entry. -/
structure SenderRefreshed (node : Node) (vtime : VTime) (first : Neigh) (listed : List Neigh)
    (node' : Node) : Prop where
  /-- It is replaced if there was none, if it was further than stratum 1, or if it was at stratum 1
  and the beacon sees the receiver. -/
  fresh : (∀ old, node.neighTable.entryOf first.id = some old → 1 < old.neigh.stratum ∨
      old.neigh.stratum = 1 ∧ beaconSeesSelf node.id (first :: listed) = true) →
    node'.neighTable.entryOf first.id =
      some (neighStored { first with stratum := senderStratum node.id (first :: listed) } vtime)
  /-- One at stratum 1 that has not expired stays if the beacon does not see the receiver. -/
  kept : ∀ old, node.neighTable.entryOf first.id = some old → old.neigh.stratum = 1 →
    ¬ beaconSeesSelf node.id (first :: listed) = true → ¬ old.ExpiredAt vtime →
    node'.neighTable.entryOf first.id = some old

/-- A well-formed beacon that is not dropped refreshes its sender's entry, unless the entry is at
stratum 1 and the beacon does not see the receiver. -/
theorem beacon_refreshes_sender {Front : Type} {callback : NodeCallback Front}
    {bad : Abort → Prop} {node : Node} {packet : Packet} {first : Neigh} {listed : List Neigh}
    (hbeacon : BeaconFrom packet.data first listed) (hother : first.id ≠ node.id)
    (hrecords : node.Records packet.data)
    (hroom : node.neighTable.needs (recordedIds node.id (first :: listed)).toFinset ≤ neighMax)
    (hcall : ∀ id vtime packet extra w,
      Wp (callback id vtime packet extra) (fun _ _ => True) bad w)
    (vtime : VTime) (w : World Front) :
    Wp (nodeReceiveBeacon callback node vtime packet)
      (fun node' _ => SenderRefreshed node vtime first listed node') bad w := by
  refine wp_nodeReceiveBeacon_insertAll hbeacon.parse hcall (fun _ herr => ?_)
    (fun hdropped => absurd hrecords hdropped) fun node' w' _ _ hins => ⟨fun hold => ?_, ?_⟩
  · have hfull := (recordBeacon_error_iff (List.cons_ne_nil first listed) _ _ _).mp herr
    exact absurd hroom (Nat.not_le.mpr hfull)
  · by_cases hsees : beaconSeesSelf node.id (first :: listed) = true
    · rw [senderStratum, if_pos hsees]
      refine hbeacon.entryOf_of_sees hother hsees hins fun old hentry hzero => ?_
      rcases hold old hentry with hfar | ⟨hone, -⟩
      · rw [hzero] at hfar
        exact absurd hfar (by decide)
      · rw [hzero] at hone
        exact absurd hone (by decide)
    · rw [senderStratum, if_neg hsees, entryOf_of_not_sees hsees hins]
      cases hentry : node.neighTable.entryOf first.id with
      | none => rfl
      | some old =>
        have hfar := (hold old hentry).resolve_right fun h => hsees h.2
        exact congrArg some (if_pos (neighReplaces_iff.mpr (Or.inr ⟨rfl, hfar⟩)))
  · intro old hentry hone hsees _
    have hnear : old.neigh.stratum ≤ 1 := by
      rw [hone]
      exact UInt8.le_refl 1
    rw [entryOf_of_not_sees hsees hins, hentry]
    refine congrArg some (if_neg fun hreplaces => ?_)
    have hle : neighStratumInf ≤ old.neigh.stratum := (neighReplaces_near hnear).mp hreplaces
    rw [hone] at hle
    exact absurd hle (by decide)

/-- A callback that does nothing. -/
def callbackIdle : NodeCallback Unit := fun _ _ _ _ => pure ()

theorem wp_callbackIdle {bad : Abort → Prop} (id : NodeId) (vtime : VTime)
    (packet extra : Option Nat) (w : World Unit) :
    Wp (callbackIdle id vtime packet extra) (fun _ _ => True) bad w := trivial

/-- Some surroundings for it. -/
def worldIdle : World Unit :=
  { tape := tapeOf [], drawn := 0, heap := [], dims := 3, uninit := fun _ => [], front := () }

/-- A beacon of a node, with some other entries. -/
def beaconSaying (first : Neigh) (listed : List Neigh) : Packet :=
  { data := packetTypeBeacon :: NodeStatus.awake.toByte :: neighLayout.encodeList (first :: listed)
    refcount := 1 }

/-- A node that has heard of node 1 from another one. -/
def nodeTold : Node :=
  { nodeListening with
    neighTable :=
      { entries := [neighStored { id := 1, stratum := 2, loc := locZero } 0]
        length_le := by decide } }

/-- When that node says that it hears this one, it becomes a neighbour, at the place it says. -/
theorem beacon_refreshes_told :
    Wp (nodeReceiveBeacon callbackIdle nodeTold 1000000
        (beaconSaying ⟨1, 0, ⟨7, 0, 0⟩⟩ [⟨0, 1, locZero⟩]))
      (fun node' _ => node'.neighTable.entryOf 1 =
        some { neigh := ⟨1, 1, ⟨7, 0, 0⟩⟩, expiry := 31000000 })
      (fun _ => False) worldIdle := by
  have hbeacon : BeaconFrom (beaconSaying ⟨1, 0, ⟨7, 0, 0⟩⟩ [⟨0, 1, locZero⟩]).data
      ⟨1, 0, ⟨7, 0, 0⟩⟩ [⟨0, 1, locZero⟩] := ⟨rfl, rfl, by decide⟩
  refine (beacon_refreshes_sender hbeacon (by decide)
    (fun h => absurd h.1 (by decide)) (by decide) wp_callbackIdle 1000000 worldIdle).imp
    fun node' _ h => h.fresh fun old hold => Or.inl ?_
  cases hold
  decide

/-- A node that has a bidirectional neighbour. -/
def nodeLinked : Node := { nodeListening with neighTable := neighTableHeard }

/-- The neighbour's entry keeps its old location if the next beacon does not see the receiver. -/
theorem beacon_refreshes_stale : ¬ ∀ (node : Node) (vtime : VTime) (packet : Packet)
    (first : Neigh) (listed : List Neigh), BeaconFrom packet.data first listed →
    first.id ≠ node.id → node.Records packet.data →
    node.neighTable.needs (recordedIds node.id (first :: listed)).toFinset ≤ neighMax →
    Wp (nodeReceiveBeacon callbackIdle node vtime packet)
      (fun node' _ => ∃ e, node'.neighTable.entryOf first.id = some e ∧ e.neigh.loc = first.loc ∧
        e.expiry = vtime.after neighExpiryTimeout) (fun _ => False) worldIdle := by
  intro hall
  have hafter := hall nodeLinked 1000000 (beaconSaying ⟨1, 0, ⟨7, 0, 0⟩⟩ []) ⟨1, 0, ⟨7, 0, 0⟩⟩ []
    ⟨rfl, rfl, by decide⟩ (by decide) (fun h => absurd h.1 (by decide)) (by decide)
  have hrun : nodeReceiveBeacon callbackIdle nodeLinked 1000000
    (beaconSaying ⟨1, 0, ⟨7, 0, 0⟩⟩ []) worldIdle = .ok (nodeLinked, worldIdle) := rfl
  obtain ⟨e, hentry, hloc, -⟩ := hafter.of_ok hrun
  cases hentry
  exact absurd hloc (by decide)

/-! ## How long a mark lasts -/

/-- The entry of a node lets it see itself in a beacon: at stratum 1, or marked. -/
def NeighTable.Marks (table : NeighTable) (id : NodeId) : Prop :=
  ∃ e, table.entryOf id = some e ∧ (e.neigh.stratum = 1 ∨ e.neigh.stratum = neighStratumInf)

/-- A node receives a beacon, after anything that leaves its identity and its table. -/
def HearsBeacon {Front : Type} (callback : NodeCallback Front) (node : Node)
    (heard : VTime × Packet) (node' : Node) : Prop :=
  ∃ (before : Node) (w w' : World Front), before.id = node.id ∧
    before.neighTable = node.neighTable ∧
    nodeReceiveBeacon callback before heard.1 heard.2 w = .ok (node', w')

/-- A beacon of another node that sees its receiver does not list `id` at a finite stratum while the
receiver has `id` marked. -/
def Node.MarkSafe (node : Node) (id : NodeId) (packet : Packet) : Prop :=
  ∀ first listed, BeaconFrom packet.data first listed → first.id ≠ id →
    beaconSeesSelf node.id (first :: listed) = true →
    (∃ e, node.neighTable.entryOf id = some e ∧ e.neigh.stratum = neighStratumInf) →
    ∀ n ∈ listed, n.id = id → n.stratum = neighStratumInf

/-- A node receives a well-formed beacon that is safe for the mark of `id`. -/
def HearsSafely {Front : Type} (callback : NodeCallback Front) (id : NodeId) (node : Node)
    (heard : VTime × Packet) (node' : Node) : Prop :=
  HearsBeacon callback node heard node' ∧
    (∃ first listed, BeaconFrom heard.2.data first listed) ∧ node.MarkSafe id heard.2

section Marks

variable {id : NodeId} {vtime : VTime} {table table' : NeighTable} {first : Neigh}
  {listed : List Neigh} {data : List UInt8}

theorem NeighTable.Marks.ne_zero (h : table.Marks id) {old : NeighEntry}
    (hold : table.entryOf id = some old) : old.neigh.stratum ≠ 0 := by
  obtain ⟨e, he, hone | hinf⟩ := h
  · cases hold.symm.trans he
    rw [hone]
    decide
  · cases hold.symm.trans he
    rw [hinf]
    decide

/-- A beacon leaves its sender at stratum 1 or marked. -/
theorem BeaconFrom.marks_sender (h : BeaconFrom data first listed) (hother : first.id ≠ id)
    (hins : insertAll vtime table (beaconInserts id (first :: listed)) = .ok table')
    (hold : ∀ old, table.entryOf first.id = some old → old.neigh.stratum ≠ 0) :
    table'.Marks first.id := by
  by_cases hsees : beaconSeesSelf id (first :: listed) = true
  · exact ⟨_, h.entryOf_of_sees hother hsees hins hold, Or.inl rfl⟩
  · refine ⟨_, entryOf_of_not_sees hsees hins, ?_⟩
    cases hentry : table.entryOf first.id with
    | none => exact Or.inr rfl
    | some old =>
      rw [settled_some]
      split
      · exact Or.inr rfl
      · rename_i hkept
        have hle : old.neigh.stratum ≤ 1 := UInt8.not_lt.mp fun hlt =>
          hkept (neighReplaces_iff.mpr (Or.inr ⟨rfl, hlt⟩))
        exact Or.inl (UInt8.le_antisymm hle (one_le_of_ne_zero (hold old hentry)))

/-- A beacon that is safe for a mark keeps it. -/
theorem BeaconFrom.marks (h : BeaconFrom data first listed) {b : NodeId} (hb : b ≠ id)
    (hins : insertAll vtime table (beaconInserts id (first :: listed)) = .ok table')
    (hsafe : first.id ≠ b → beaconSeesSelf id (first :: listed) = true →
      (∃ e, table.entryOf b = some e ∧ e.neigh.stratum = neighStratumInf) →
      ∀ n ∈ listed, n.id = b → n.stratum = neighStratumInf)
    (hmarks : table.Marks b) : table'.Marks b := by
  by_cases hfirst : first.id = b
  · subst hfirst
    exact h.marks_sender hb hins fun old => hmarks.ne_zero
  have hlisted : ∀ i ∈ beaconInserts id (first :: listed), i.neigh.id = b →
      beaconSeesSelf id (first :: listed) = true ∧
        ∃ n ∈ listed, n.id = b ∧ n.stratum ≠ neighStratumInf ∧ beaconFurther n = i := by
    intro i hi hid
    rcases mem_beaconInserts hi with ⟨hsees, n, hmem, -, hinf, rfl⟩ | ⟨_, _, heq, rfl⟩
    · rcases List.mem_cons.mp hmem with rfl | hmem
      · exact absurd hid hfirst
      · exact ⟨hsees, n, hmem, hid, hinf, rfl⟩
    · cases heq
      exact absurd hid hfirst
  obtain ⟨e, hentry, hone | hinf⟩ := hmarks
  · refine ⟨e, insertAll_entryOf_of_near hins hentry ?_ fun i hi hid => ?_, Or.inl hone⟩
    · rw [hone]
      exact UInt8.le_refl 1
    · obtain ⟨-, n, hn, -, hne, rfl⟩ := hlisted i hi hid
      exact one_lt_further (h.lists n hn) hne
  · refine ⟨e, (insertAll_entryOf_of_ne hins fun i hi hid => ?_).trans hentry, Or.inr hinf⟩
    obtain ⟨hsees, n, hn, hnb, hne, rfl⟩ := hlisted i hi hid
    exact hne (hsafe hfirst hsees ⟨e, hentry, hinf⟩ n hn hnb)

end Marks

section Runs

variable {Front : Type} {callback : NodeCallback Front} {node node' : Node} {id : NodeId}

/-- What a call of `node_receive_beacon` that returns has done to the table. -/
theorem nodeReceiveBeacon_table {vtime : VTime} {packet : Packet} {neighs : List Neigh}
    {w w' : World Front} (hparse : beaconParse packet.data = .ok neighs)
    (h : nodeReceiveBeacon callback node vtime packet w = .ok (node', w')) :
    node'.id = node.id ∧ (¬ node.Records packet.data ∧ node' = node ∨
      node.Records packet.data ∧
        insertAll vtime node.neighTable (beaconInserts node.id neighs) = .ok node'.neighTable) := by
  have hwp : Wp (nodeReceiveBeacon callback node vtime packet) (fun node' _ =>
      node'.id = node.id ∧ (¬ node.Records packet.data ∧ node' = node ∨
        node.Records packet.data ∧ insertAll vtime node.neighTable
          (beaconInserts node.id neighs) = .ok node'.neighTable)) (fun _ => True) w :=
    wp_nodeReceiveBeacon_insertAll hparse (fun _ _ _ _ _ => wp_true _ _) (fun _ _ => trivial)
      (fun hdropped => ⟨rfl, Or.inl ⟨hdropped, rfl⟩⟩)
      fun _ _ hid hrecords hins => ⟨hid, Or.inr ⟨hrecords, hins⟩⟩
  exact hwp.of_ok h

/-- A beacon that is safe for a mark keeps it. -/
theorem HearsSafely.marks {heard : VTime × Packet} (h : HearsSafely callback id node heard node')
    (hid : id ≠ node.id) (hmarks : node.neighTable.Marks id) :
    node'.id = node.id ∧ node'.neighTable.Marks id := by
  obtain ⟨⟨before, w, w', hbid, hbtable, hrun⟩, ⟨first, listed, hbeacon⟩, hsafe⟩ := h
  obtain ⟨hnode, ⟨-, rfl⟩ | ⟨-, hins⟩⟩ := nodeReceiveBeacon_table hbeacon.parse hrun
  · exact ⟨hbid, hbtable ▸ hmarks⟩
  · rw [hbid, hbtable] at hins
    exact ⟨hnode.trans hbid, hbeacon.marks hid hins (hsafe first listed hbeacon) hmarks⟩

/-- Once a node has processed a beacon of another node, that node's entry stays at stratum 1 or
marked, as long as no third node that sees the receiver reports it at a finite stratum while it is
marked. -/
theorem handshakeMark_kept {vtime : VTime} {packet : Packet} {w w' : World Front} {first : Neigh}
    {listed : List Neigh} {heard : List (VTime × Packet)} {after : Node}
    (hbeacon : BeaconFrom packet.data first listed) (hother : first.id ≠ node.id)
    (hrecords : node.Records packet.data)
    (hold : ∀ old, node.neighTable.entryOf first.id = some old → old.neigh.stratum ≠ 0)
    (hfirst : nodeReceiveBeacon callback node vtime packet w = .ok (node', w'))
    (hrun : Run (HearsSafely callback first.id) node' heard after) :
    after.neighTable.Marks first.id := by
  obtain ⟨hid, ⟨hdropped, -⟩ | ⟨-, hins⟩⟩ := nodeReceiveBeacon_table hbeacon.parse hfirst
  · exact absurd hrecords hdropped
  · refine (hrun.keeps (I := fun n => n.id = node.id ∧ n.neighTable.Marks first.id)
      (fun n l n' hn hstep => ?_) ⟨hid, hbeacon.marks_sender hother hins hold⟩).2
    obtain ⟨hid', hmarks'⟩ := hstep.marks (by rwa [hn.1]) hn.2
    exact ⟨hid'.trans hn.1, hmarks'⟩

end Runs

/-- A node with the entries of some neighbours, as inserted at the beginning. -/
def nodeKnowing (neighs : List Neigh) (h : neighs.length ≤ neighMax) : Node :=
  { nodeListening with
    neighTable :=
      { entries := neighs.map fun n => neighStored n 0
        length_le := by rwa [List.length_map] } }

/-- A node keeps a mark that another node reports as a mark. -/
theorem handshakeMark_kept_reported :
    (nodeKnowing [⟨1, 10, locZero⟩, ⟨2, 1, locZero⟩] (by decide)).neighTable.Marks 1 := by
  have hbeacon : BeaconFrom (beaconSaying ⟨1, 0, locZero⟩ []).data ⟨1, 0, locZero⟩ [] :=
    ⟨rfl, rfl, by decide⟩
  have hfirst : nodeReceiveBeacon callbackIdle nodeListening 0 (beaconSaying ⟨1, 0, locZero⟩ [])
      worldIdle = .ok (nodeKnowing [⟨1, 10, locZero⟩] (by decide), worldIdle) := rfl
  have hparse : beaconParse
      (beaconSaying ⟨2, 0, locZero⟩ [⟨0, 1, locZero⟩, ⟨1, 10, locZero⟩]).data =
      .ok [⟨2, 0, locZero⟩, ⟨0, 1, locZero⟩, ⟨1, 10, locZero⟩] := rfl
  have hsafe : (nodeKnowing [⟨1, 10, locZero⟩] (by decide)).MarkSafe 1
      (beaconSaying ⟨2, 0, locZero⟩ [⟨0, 1, locZero⟩, ⟨1, 10, locZero⟩]) := by
    intro first listed hfrom _ _ _
    cases hparse.symm.trans hfrom.parse
    decide
  have hrun : Run (HearsSafely callbackIdle 1) (nodeKnowing [⟨1, 10, locZero⟩] (by decide))
      [(0, beaconSaying ⟨2, 0, locZero⟩ [⟨0, 1, locZero⟩, ⟨1, 10, locZero⟩])]
      (nodeKnowing [⟨1, 10, locZero⟩, ⟨2, 1, locZero⟩] (by decide)) :=
    .cons ⟨⟨_, worldIdle, worldIdle, rfl, rfl, rfl⟩, ⟨_, _, hparse, rfl, by decide⟩, hsafe⟩ (.nil _)
  exact handshakeMark_kept hbeacon (by decide) (fun h => absurd h.1 (by decide))
    (fun _ h => by cases h) hfirst hrun

/-- A node that is marked is turned into a neighbour at stratum 2 by a third node that sees both. -/
theorem handshakeMark_lost : ¬ ∀ (node node' after : Node) (vtime : VTime) (packet : Packet)
    (w w' : World Unit) (first : Neigh) (listed : List Neigh) (heard : List (VTime × Packet)),
    BeaconFrom packet.data first listed → first.id ≠ node.id → node.Records packet.data →
    nodeReceiveBeacon callbackIdle node vtime packet w = .ok (node', w') →
    Run (fun n l n' => HearsBeacon callbackIdle n l n' ∧
      ∃ first listed, BeaconFrom l.2.data first listed) node' heard after →
    after.neighTable.Marks first.id := by
  intro hall
  have hmarks := hall nodeListening (nodeKnowing [⟨1, 10, locZero⟩] (by decide))
    (nodeKnowing [⟨1, 2, locZero⟩, ⟨2, 1, locZero⟩] (by decide)) 0
    (beaconSaying ⟨1, 0, locZero⟩ []) worldIdle worldIdle ⟨1, 0, locZero⟩ []
    [(0, beaconSaying ⟨2, 0, locZero⟩ [⟨0, 1, locZero⟩, ⟨1, 1, locZero⟩])]
    ⟨rfl, rfl, by decide⟩ (by decide) (fun h => absurd h.1 (by decide)) rfl
    (.cons ⟨⟨_, worldIdle, worldIdle, rfl, rfl, rfl⟩, ⟨_, _, rfl, rfl, by decide⟩⟩ (.nil _))
  obtain ⟨e, hentry, hstratum⟩ := hmarks
  cases hentry
  revert hstratum
  decide

end OldRadio.Second
