import OldRadio.Second.NeighRules
import OldRadio.Second.Overflow

/-!
# Hop counts of beacons

A stratum is a byte with a mark in the middle of its range, so what a beacon
brings one link further may be stratum 0, or the mark.
-/

namespace OldRadio.Second

open Library
open Node (M)

section Inserts

variable {id : NodeId} {vtime : VTime} {table table' : NeighTable} {neighs : List Neigh}
  {inserts : List BeaconInsert}

/-- What `node_receive_beacon` leaves: the node as it was if it drops the beacon, and else its table
after the insertions. It stops only where the callback does, or at a full table. -/
theorem wp_nodeReceiveBeacon_insertAll {Front : Type} {callback : NodeCallback Front}
    {bad : Abort → Prop} {good : Node → World Front → Prop} {node : Node} {packet : Packet}
    {w : World Front} (hparse : beaconParse packet.data = .ok neighs)
    (hcall : ∀ id vtime packet extra w,
      Wp (callback id vtime packet extra) (fun _ _ => True) bad w)
    (hfull : node.Records packet.data →
      recordBeacon node.id vtime node.neighTable neighs = .error .neighTableFull →
      bad .neighTableFull)
    (hdropped : ¬ node.Records packet.data → good node w)
    (hrecorded : ∀ node' w', node'.id = node.id → node.Records packet.data →
      insertAll vtime node.neighTable (beaconInserts node.id neighs) = .ok node'.neighTable →
      good node' w') :
    Wp (nodeReceiveBeacon callback node vtime packet) good bad w := by
  have hne := beaconParse_ne_nil hparse
  rw [nodeReceiveBeacon, hparse, wp_bind]
  refine wp_ofExcept (fun neighs' h => ?_) fun e he => by cases he
  cases h
  split
  · rename_i hasleep
    split
    · rename_i hwaking
      exact hdropped fun hrecords => hrecords ⟨hasleep, hwaking⟩
    · rename_i hwaking
      have hrecords : node.Records packet.data := fun hdrop => hwaking hdrop.2
      rw [wp_bind]
      refine wp_nodeWake ((hcall _ _ _ _ _).imp fun _ w' _ virtloc _ => ?_)
      refine (hcall _ _ _ _ _).imp fun _ w'' _ => ?_
      refine wp_nodeRecord _ _ hne (hfull hrecords) fun neighTable hrecord => ?_
      exact hrecorded _ _ rfl hrecords ((recordBeacon_eq_insertAll hne).symm.trans hrecord)
  · rename_i hasleep
    have hrecords : node.Records packet.data := fun hdrop => hasleep hdrop.1
    refine wp_nodeRecord _ _ hne (hfull hrecords) fun neighTable hrecord => ?_
    exact hrecorded _ _ rfl hrecords ((recordBeacon_eq_insertAll hne).symm.trans hrecord)

/-! ## Near entries -/

/-- The table has an entry of a node that nothing but stratum 0 or 1 replaces. -/
def NeighTable.Near (table : NeighTable) (id : NodeId) : Prop :=
  ∃ e, table.entryOf id = some e ∧ e.neigh.stratum ≤ 1

/-- Of an entry that has stratum 0 or 1 the new one replaces only one that is not nearer. -/
theorem neighReplaces_near {neigh old : Neigh} (h : old.stratum ≤ 1) :
    neighReplaces neigh old = true ↔ neigh.stratum ≤ old.stratum := by
  rw [neighReplaces_iff]
  exact or_iff_left fun hinf => absurd hinf.2 (UInt8.not_lt.mpr h)

theorem near_insert_iff {neigh : Neigh} (h : neighTableInsert table neigh vtime = .ok table') :
    table'.Near id ↔ table.Near id ∨ neigh.id = id ∧ neigh.stratum ≤ 1 := by
  by_cases hid : neigh.id = id
  · subst hid
    rw [NeighTable.Near, neighTableInsert_entryOf_self h, NeighTable.Near]
    simp only [Option.some.injEq, exists_eq_left', true_and]
    cases hold : table.entryOf neigh.id with
    | none => simp [neighStored]
    | some old =>
      simp only [settled_some, Option.some.injEq, exists_eq_left']
      by_cases hreplaces : neighReplaces neigh old.neigh = true
      · rw [entryReplaces, neighStored, if_pos hreplaces]
        refine ⟨Or.inr, Or.rec (fun hnear => ?_) (fun hnear => hnear)⟩
        exact UInt8.le_trans ((neighReplaces_near hnear).mp hreplaces) hnear
      · rw [entryReplaces, neighStored, if_neg hreplaces]
        refine ⟨Or.inl, Or.rec (fun hnear => hnear) (fun hnear => ?_)⟩
        have hless : ¬ neigh.stratum ≤ old.neigh.stratum := fun hle =>
          hreplaces (neighReplaces_iff.mpr (Or.inl hle))
        exact UInt8.le_trans (UInt8.le_of_lt (UInt8.not_le.mp hless)) hnear
  · rw [NeighTable.Near, neighTableInsert_entryOf_of_ne h (Ne.symm hid), NeighTable.Near]
    exact (or_iff_left fun hn => hid hn.1).symm

/-- A node is near after some insertions if it was, or one of them brings it. -/
theorem near_insertAll_iff (h : insertAll vtime table inserts = .ok table') :
    table'.Near id ↔ table.Near id ∨ ∃ i ∈ inserts, i.neigh.id = id ∧ i.neigh.stratum ≤ 1 := by
  induction inserts generalizing table with
  | nil =>
    cases h
    simp
  | cons i inserts ih =>
    rw [insertAll_cons] at h
    obtain ⟨table₁, hi, hrest⟩ := bind_eq_ok h
    rw [ih hrest, near_insert_iff hi, or_assoc]
    simp

/-- The insertions up to one of them succeed exactly when it is reached and has room. -/
theorem insertAll_snoc_ok_iff (before : List BeaconInsert) (i : BeaconInsert) :
    (∃ table₁ table₂, insertAll vtime table before = .ok table₁ ∧
        neighTableInsert table₁ i.neigh vtime = .ok table₂) ↔
      table.needs ((before ++ [i]).map fun i => i.neigh.id).toFinset ≤ neighMax := by
  rw [← insertAll_ok_iff, insertAll_append]
  constructor
  · rintro ⟨table₁, table₂, hbefore, hi⟩
    refine ⟨table₂, ?_⟩
    rw [hbefore, ok_bind, insertAll_cons, hi]
    rfl
  · rintro ⟨table₂, h⟩
    rw [← insertAll_append] at h
    exact exists_insert_of_insertAll h

end Inserts

/-! ## Hop counts -/

/-- An insertion takes effect: afterwards the table has what was inserted. -/
def NeighTable.Stores (table : NeighTable) (neigh : Neigh) (vtime : VTime) : Prop :=
  ∃ table', neighTableInsert table neigh vtime = .ok table' ∧
    table'.entryOf neigh.id = some (neighStored neigh vtime)

/-- `node_receive_beacon` makes an insertion that takes effect. -/
def Node.Stores (node : Node) (vtime : VTime) (packet : Packet) (i : BeaconInsert) : Prop :=
  node.Records packet.data ∧ ∃ neighs before after table,
    beaconParse packet.data = .ok neighs ∧ beaconInserts node.id neighs = before ++ i :: after ∧
      insertAll vtime node.neighTable before = .ok table ∧ table.Stores i.neigh vtime

/-- The stratum that is stored for an entry of a beacon from `src` counts one link more, or marks
the sender. -/
structure HopsCounted (src : NodeId) (i : BeaconInsert) : Prop where
  /-- No stored stratum is zero. -/
  ne_zero : i.neigh.stratum ≠ 0
  /-- Only the sender is marked. -/
  mark : i.neigh.stratum = neighStratumInf → i.neigh.id = src
  /-- Every other stratum is one more than the advertised one. -/
  further : i.neigh.stratum ≠ neighStratumInf →
    i.neigh.stratum.toNat = i.told.stratum.toNat + 1

/-- No entry that is inserted of a beacon that sees its receiver has stratum 255, and one with
stratum 9 is the sender's, or its node is near already: in the table, or by an earlier entry. An
entry counts if the table has room for it and the ones before it. -/
def Node.HopsInRange (node : Node) (packet : Packet) : Prop :=
  node.Records packet.data → ∀ first listed before n after,
    beaconParse packet.data = .ok (first :: listed) →
    beaconSeesSelf node.id (first :: listed) = true →
    recordedNeighs node.id (first :: listed) = before ++ n :: after →
    node.neighTable.needs ((before ++ [n]).map Neigh.id).toFinset ≤ neighMax →
      n.stratum ≠ 255 ∧ (n.stratum = 9 → n.id = first.id ∨ node.neighTable.Near n.id ∨
        ∃ m ∈ before, m.id = n.id ∧ m.stratum = 0)

theorem toNat_succ_of_ne {s : Stratum} (h : s ≠ 255) : (s + 1).toNat = s.toNat + 1 := by
  have hne : s.toNat ≠ 255 := fun he => h (UInt8.toNat_inj.mp he)
  have hlt := s.toNat_lt
  rw [UInt8.toNat_add]
  exact Nat.mod_eq_of_lt (show s.toNat + 1 < 2 ^ 8 by omega)

/-- One link further is near for a node itself, and when the stratum wraps. -/
theorem succ_le_one_iff {s : Stratum} : s + 1 ≤ 1 ↔ s = 0 ∨ s = 255 := by
  by_cases h : s = 255
  · subst h
    decide
  · rw [or_iff_left h, UInt8.le_iff_toNat_le, toNat_succ_of_ne h, ← UInt8.toNat_inj]
    change s.toNat + 1 ≤ 1 ↔ s.toNat = 0
    omega

section Stores

variable {vtime : VTime} {table table' : NeighTable}

/-- What is not stored is kept out by an entry that it does not replace. -/
theorem stores_iff {neigh : Neigh} (h : neighTableInsert table neigh vtime = .ok table') :
    table.Stores neigh vtime ↔
      ∀ old, table.entryOf neigh.id = some old → neighReplaces neigh old.neigh = true := by
  have hself := neighTableInsert_entryOf_self h
  constructor
  · rintro ⟨table₁, h₁, hstored⟩ old hold
    cases h.symm.trans h₁
    by_contra hkept
    have hsettled : settled entryReplaces (neighStored neigh vtime) (some old) = old :=
      if_neg hkept
    rw [hself, hold, hsettled] at hstored
    exact ne_neighStored hkept (Option.some.inj hstored)
  · intro hreplaces
    refine ⟨table', h, ?_⟩
    rw [hself]
    cases hold : table.entryOf neigh.id with
    | none => rfl
    | some old => exact congrArg some (if_pos (hreplaces old hold))

/-- Stratum 0 is always stored. -/
theorem stores_zero {neigh : Neigh} (h : neighTableInsert table neigh vtime = .ok table')
    (hzero : neigh.stratum = 0) : table.Stores neigh vtime := by
  refine (stores_iff h).mpr fun old _ => neighReplaces_iff.mpr (Or.inl ?_)
  rw [hzero, UInt8.le_iff_toNat_le]
  exact Nat.zero_le _

/-- The mark is stored unless the node is near. -/
theorem stores_mark_iff {neigh : Neigh} (h : neighTableInsert table neigh vtime = .ok table')
    (hmark : neigh.stratum = neighStratumInf) :
    table.Stores neigh vtime ↔ ¬ table.Near neigh.id := by
  rw [stores_iff h]
  constructor
  · rintro hreplaces ⟨old, hold, hnear⟩
    have hle := (neighReplaces_near hnear).mp (hreplaces old hold)
    rw [hmark] at hle
    exact absurd (UInt8.le_trans hle hnear) (by decide)
  · intro hnear old hold
    refine neighReplaces_iff.mpr (Or.inr ⟨hmark, UInt8.not_le.mp fun hle => ?_⟩)
    exact hnear ⟨old, hold, hle⟩

end Stores

section Hops

variable {node : Node} {vtime : VTime} {packet : Packet} {first n : Neigh}
  {listed before after : List Neigh}

theorem map_id_beaconFurther (neighs : List Neigh) :
    ((neighs.map beaconFurther).map fun i => i.neigh.id) = neighs.map Neigh.id := by
  rw [List.map_map]
  rfl

/-- An entry is reached and inserted exactly when the table has room for it. -/
theorem exists_insert_iff (vtime : VTime) (before : List Neigh) (n : Neigh) :
    (∃ table table', insertAll vtime node.neighTable (before.map beaconFurther) = .ok table ∧
        neighTableInsert table (beaconFurther n).neigh vtime = .ok table') ↔
      node.neighTable.needs ((before ++ [n]).map Neigh.id).toFinset ≤ neighMax := by
  rw [insertAll_snoc_ok_iff, ← map_id_beaconFurther, List.map_append (f := beaconFurther)]
  rfl

/-- Such an insertion is one of `node_receive_beacon`. -/
theorem Node.Stores.intro {table : NeighTable} (hrecords : node.Records packet.data)
    (hparse : beaconParse packet.data = .ok (first :: listed))
    (hsees : beaconSeesSelf node.id (first :: listed) = true)
    (hsplit : recordedNeighs node.id (first :: listed) = before ++ n :: after)
    (hbefore : insertAll vtime node.neighTable (before.map beaconFurther) = .ok table)
    (hstores : table.Stores (beaconFurther n).neigh vtime) :
    node.Stores vtime packet (beaconFurther n) := by
  refine ⟨hrecords, first :: listed, before.map beaconFurther, after.map beaconFurther, table,
    hparse, ?_, hbefore, hstores⟩
  rw [beaconInserts, if_pos hsees, hsplit, List.map_append, List.map_cons]

/-- If every stored stratum is right, no entry that is reached has stratum 255. -/
theorem ne_255_of_hopsCounted (hhops : ∀ i, node.Stores vtime packet i → HopsCounted first.id i)
    (hrecords : node.Records packet.data)
    (hparse : beaconParse packet.data = .ok (first :: listed))
    (hsees : beaconSeesSelf node.id (first :: listed) = true)
    (hsplit : recordedNeighs node.id (first :: listed) = before ++ n :: after)
    (hneeds : node.neighTable.needs ((before ++ [n]).map Neigh.id).toFinset ≤ neighMax) :
    n.stratum ≠ 255 := by
  intro h255
  have hzero : (beaconFurther n).neigh.stratum = 0 := by
    rw [beaconFurther, h255]
    rfl
  obtain ⟨table, table', hbefore, hinsert⟩ := (exists_insert_iff vtime before n).mpr hneeds
  exact (hhops _ (.intro hrecords hparse hsees hsplit hbefore
    (stores_zero hinsert hzero))).ne_zero hzero

/-- If every stored stratum is right, every entry that is reached is in range. -/
theorem hopsInRange_of_hopsCounted
    (hhops : ∀ first listed, beaconParse packet.data = .ok (first :: listed) →
      ∀ i, node.Stores vtime packet i → HopsCounted first.id i) : node.HopsInRange packet := by
  intro hrecords first listed before n after hparse hsees hsplit hneeds
  have hright := hhops first listed hparse
  refine ⟨ne_255_of_hopsCounted hright hrecords hparse hsees hsplit hneeds, fun h9 => ?_⟩
  have hmark : (beaconFurther n).neigh.stratum = neighStratumInf := by
    rw [beaconFurther, h9]
    rfl
  obtain ⟨table, table', hbefore, hinsert⟩ := (exists_insert_iff vtime before n).mpr hneeds
  by_cases hnear : table.Near n.id
  · -- What keeps the mark out was there before the beacon, or came with an earlier entry.
    refine Or.inr (((near_insertAll_iff hbefore).mp hnear).imp_right ?_)
    rintro ⟨i, hi, hid, hle⟩
    obtain ⟨m, hm, rfl⟩ := List.mem_map.mp hi
    obtain ⟨front, back, rfl⟩ := List.append_of_mem hm
    refine ⟨m, hm, hid, (succ_le_one_iff.mp hle).resolve_right ?_⟩
    have hsplit' : recordedNeighs node.id (first :: listed) =
        front ++ m :: (back ++ n :: after) := by
      rw [hsplit, List.append_assoc, List.cons_append]
    refine ne_255_of_hopsCounted hright hrecords hparse hsees hsplit' ?_
    rw [List.map_append, List.map_cons] at hbefore
    exact (exists_insert_iff vtime front m).mp (exists_insert_of_insertAll hbefore)
  · exact Or.inl ((hright _ (.intro hrecords hparse hsees hsplit hbefore
      ((stores_mark_iff hinsert hmark).mpr hnear))).mark hmark)

/-- An entry in range of a beacon that sees its receiver is stored at the right stratum. -/
theorem hopsCounted_further {src : NodeId} {table table' : NeighTable} (hne : n.stratum ≠ 255)
    (hmark : n.stratum = 9 → n.id = src ∨ table.Near n.id)
    (hinsert : neighTableInsert table (beaconFurther n).neigh vtime = .ok table')
    (hstores : table.Stores (beaconFurther n).neigh vtime) : HopsCounted src (beaconFurther n) := by
  have hnat : (beaconFurther n).neigh.stratum.toNat = n.stratum.toNat + 1 := toNat_succ_of_ne hne
  refine ⟨fun hzero => ?_, fun hinf => ?_, fun _ => hnat⟩
  · rw [hzero] at hnat
    cases hnat
  · have h9 : n.stratum = 9 := by
      rw [hinf] at hnat
      exact UInt8.toNat_inj.mp (Nat.succ.inj hnat).symm
    exact (hmark h9).resolve_right ((stores_mark_iff hinsert hinf).mp hstores)

/-- If every entry that is reached is in range, every stored stratum is right. -/
theorem hopsCounted_of_hopsInRange (hrange : node.HopsInRange packet)
    (hparse : beaconParse packet.data = .ok (first :: listed)) {i : BeaconInsert}
    (h : node.Stores vtime packet i) : HopsCounted first.id i := by
  obtain ⟨hrecords, neighs, before, after, table, hparse', hsplit, hbefore, hstores⟩ := h
  cases hparse.symm.trans hparse'
  obtain ⟨table', hinsert, -⟩ := id hstores
  rw [beaconInserts] at hsplit
  split at hsplit
  · rename_i hsees
    obtain ⟨ns, rest, hns, rfl, hrest⟩ := List.map_eq_append_iff.mp hsplit
    obtain ⟨n, ms, rfl, rfl, rfl⟩ := List.map_eq_cons_iff.mp hrest
    obtain ⟨hne, hmark⟩ := hrange hrecords first listed ns n ms hparse hsees hns
      ((exists_insert_iff vtime ns n).mp ⟨table, table', hbefore, hinsert⟩)
    refine hopsCounted_further hne (fun h9 => (hmark h9).imp_right fun hnear => ?_) hinsert hstores
    refine (near_insertAll_iff hbefore).mpr (hnear.imp_right ?_)
    rintro ⟨m, hm, hid, hzero⟩
    exact ⟨beaconFurther m, List.mem_map_of_mem hm, hid, succ_le_one_iff.mpr (Or.inl hzero)⟩
  · obtain ⟨i', hi, rfl⟩ : ∃ n, n ∈ (first :: listed).take 1 ∧ beaconMarked n = i := by
      rw [← List.mem_map, hsplit]
      exact List.mem_append_right before List.mem_cons_self
    obtain rfl : i' = first := by simpa using hi
    exact ⟨show neighStratumInf ≠ 0 by decide, fun _ => rfl, fun hne => absurd rfl hne⟩

/-- `node_receive_beacon` stores right strata only, for a beacon of any strata, exactly when no
entry that it comes to wraps to stratum 0 or is turned into a mark that is stored. -/
theorem hopsCounted_iff (node : Node) (vtime : VTime) (packet : Packet) :
    (∀ first listed, beaconParse packet.data = .ok (first :: listed) →
        ∀ i, node.Stores vtime packet i → HopsCounted first.id i) ↔ node.HopsInRange packet := by
  constructor
  · exact hopsInRange_of_hopsCounted
  · intro hrange first listed hparse i hstores
    exact hopsCounted_of_hopsInRange hrange hparse hstores

end Hops

/-- A node that is awake and has heard of no one. -/
def nodeListening : Node := { nodeBlank 0 locZero with status := .awake }

/-- The entries of a beacon that sees node 0 and lists one node at stratum 255 and one at 9. -/
def neighsFar : List Neigh :=
  [⟨1, 0, locZero⟩, ⟨0, 1, locZero⟩, ⟨2, 255, locZero⟩, ⟨3, 9, locZero⟩]

/-- The beacon with these entries. -/
def beaconFar : Packet :=
  { data := packetTypeBeacon :: NodeStatus.awake.toByte :: neighLayout.encodeList neighsFar
    refcount := 1 }

/-- A listed stratum of 255 is stored as 0, and one of 9 as the mark of a node never heard. -/
theorem hopsCounted_wraps :
    (¬ ∀ (node : Node) (vtime : VTime) (packet : Packet) (i : BeaconInsert),
      node.Stores vtime packet i → i.neigh.stratum ≠ 0) ∧
    ¬ ∀ (node : Node) (vtime : VTime) (packet : Packet) (first : Neigh) (listed : List Neigh)
      (i : BeaconInsert), beaconParse packet.data = .ok (first :: listed) →
        node.Stores vtime packet i → i.neigh.stratum = neighStratumInf → i.neigh.id = first.id := by
  have hparse : beaconParse beaconFar.data = .ok neighsFar := rfl
  have hrecords : nodeListening.Records beaconFar.data := fun hdrop => absurd hdrop.1 (by decide)
  constructor
  · intro hall
    have hstored : nodeListening.Stores 0 beaconFar (beaconFurther ⟨2, 255, locZero⟩) :=
      ⟨hrecords, _, [beaconFurther ⟨1, 0, locZero⟩], [beaconFurther ⟨3, 9, locZero⟩], _, hparse,
        rfl, rfl, _, rfl, rfl⟩
    exact hall _ _ _ _ hstored rfl
  · intro hall
    have hstored : nodeListening.Stores 0 beaconFar (beaconFurther ⟨3, 9, locZero⟩) :=
      ⟨hrecords, _, [beaconFurther ⟨1, 0, locZero⟩, beaconFurther ⟨2, 255, locZero⟩], [], _, hparse,
        rfl, rfl, _, rfl, rfl⟩
    exact absurd (hall _ _ _ _ _ _ hparse hstored rfl) (by decide)

end OldRadio.Second
