import Mathlib.Data.Finset.Insert
import OldRadio.First.BeaconTable

/-!
# What a node keeps of the sender of a beacon

Recording a beacon takes an entry for every id that is new, and fails if there
are not enough. The sender is recorded at stratum 1 if it hears the receiver and
at `STRAT_INF` if not. An entry of it gives way to neither if it says less, so a
sender known through others at a finite stratum keeps that stratum as long as it
does not hear the receiver.
-/

namespace OldRadio.First

open Library

/-! ## Room in the table -/

/-- The ids of the records that have no entry yet. -/
def Beacons.newIds (s : Beacons) (records : List BeaconT) : Finset NodeId :=
  ((records.map BeaconT.id).filter fun id => id ≠ s.identifier ∧ id ∉ s.ids).toFinset

/-- There are enough entries for the records. -/
def Beacons.HasRoom (s : Beacons) (records : List BeaconT) : Prop :=
  s.neighbours.length + (s.newIds records).card ≤ maxNeigh

instance (s : Beacons) (records : List BeaconT) : Decidable (s.HasRoom records) :=
  inferInstanceAs (Decidable (_ ≤ _))

namespace Beacons

variable {s s' : Beacons} {now : Int} {b : BeaconT} {records : List BeaconT}

theorem mem_newIds {id : NodeId} : id ∈ s.newIds records ↔
    (∃ b ∈ records, b.id = id) ∧ id ≠ s.identifier ∧ id ∉ s.ids := by
  simp [newIds]

theorem ids_upsert {new : NeighbourT}
    (h : s'.neighbours = upsert NeighbourT.id givesWay new s.neighbours) :
    s'.ids = if new.id ∈ s.ids then s.ids else s.ids ++ [new.id] := by
  rw [ids, h, map_upsert]
  rfl

/-- A record of a known id, or of the node itself, takes no entry. -/
theorem newIds_cons_of_known (h : b.id = s.identifier ∨ b.id ∈ s.ids) :
    s.newIds (b :: records) = s.newIds records := by
  ext id
  rw [mem_newIds, mem_newIds, List.exists_mem_cons_iff]
  refine ⟨fun ⟨hmem, hne, hnew⟩ => ⟨hmem.resolve_left ?_, hne, hnew⟩,
    fun ⟨hmem, hne, hnew⟩ => ⟨Or.inr hmem, hne, hnew⟩⟩
  rintro rfl
  exact h.elim hne hnew

/-- A record of another id takes one entry, and a later one of the same id takes none. -/
theorem newIds_cons_of_new (hself : b.id ≠ s.identifier) (hnew : b.id ∉ s.ids)
    (hid : s'.identifier = s.identifier) (hids : s'.ids = s.ids ++ [b.id]) :
    s.newIds (b :: records) = insert b.id (s'.newIds records) ∧ b.id ∉ s'.newIds records := by
  have hmem : ∀ id, id ∈ s'.ids ↔ id ∈ s.ids ∨ id = b.id := fun id => by rw [hids]; simp
  constructor
  · ext id
    rw [Finset.mem_insert, mem_newIds, mem_newIds, List.exists_mem_cons_iff, hid, hmem]
    constructor
    · rintro ⟨rfl | hrest, hne, hfresh⟩
      · exact Or.inl rfl
      · by_cases hb : id = b.id
        · exact Or.inl hb
        · exact Or.inr ⟨hrest, hne, fun h => h.elim hfresh hb⟩
    · rintro (rfl | ⟨hrest, hne, hfresh⟩)
      · exact ⟨Or.inl rfl, hself, hnew⟩
      · exact ⟨Or.inr hrest, hne, fun h => hfresh (Or.inl h)⟩
  · rw [mem_newIds, hmem]
    exact fun h => h.2.2 (Or.inr rfl)

/-- One record fails without room for it, or it takes what it needs of the room. -/
theorem record_room (s : Beacons) (now : Int) (b : BeaconT) (records : List BeaconT) :
    (s.record now b = .error .tableFull ∧ ¬ s.HasRoom (b :: records)) ∨
      ∃ s', s.record now b = .ok s' ∧ (s'.HasRoom records ↔ s.HasRoom (b :: records)) := by
  by_cases hself : b.id = s.identifier
  · exact Or.inr ⟨s, by rw [record, if_pos hself], by
      rw [HasRoom, HasRoom, newIds_cons_of_known (Or.inl hself)]⟩
  rw [record, if_neg hself]
  rcases s.store_cases (neighbourOf now b) with ⟨herr, hnew, hfull⟩ | ⟨s', hok, hid, htable⟩
  · refine Or.inl ⟨herr, fun hroom => ?_⟩
    have hmem : b.id ∈ s.newIds (b :: records) :=
      mem_newIds.mpr ⟨⟨b, List.mem_cons_self, rfl⟩, hself, hnew⟩
    have hpos := Finset.card_pos.mpr ⟨b.id, hmem⟩
    rw [HasRoom] at hroom
    omega
  · refine Or.inr ⟨s', hok, ?_⟩
    have hids : s'.ids = if b.id ∈ s.ids then s.ids else s.ids ++ [b.id] := ids_upsert htable
    have hlen : s'.neighbours.length =
        if b.id ∈ s.ids then s.neighbours.length else s.neighbours.length + 1 := by
      rw [htable, length_upsert]
      rfl
    by_cases hknown : b.id ∈ s.ids
    · rw [if_pos hknown] at hids hlen
      rw [HasRoom, HasRoom, newIds_cons_of_known (Or.inr hknown), newIds, newIds, hids, hlen, hid]
    · rw [if_neg hknown] at hids hlen
      obtain ⟨hins, hout⟩ : s.newIds (b :: records) = insert b.id (s'.newIds records) ∧ _ :=
        newIds_cons_of_new hself hknown hid hids
      rw [HasRoom, HasRoom, hins, Finset.card_insert_of_notMem hout, hlen]
      omega

/-- Recording records succeeds exactly when there is room for them, and else stops at the assertion
on the table. -/
theorem foldlM_record_cases (s : Beacons) (now : Int) (records : List BeaconT) :
    (records.foldlM (record now) s = .error .tableFull ∧ ¬ s.HasRoom records) ∨
      ∃ s', records.foldlM (record now) s = .ok s' ∧ s.HasRoom records := by
  induction records generalizing s with
  | nil =>
    refine Or.inr ⟨s, rfl, ?_⟩
    rw [HasRoom]
    exact s.length_le
  | cons b records ih =>
    rw [List.foldlM_cons]
    rcases record_room s now b records with ⟨herr, hfull⟩ | ⟨t, hok, hiff⟩
    · rw [herr]
      exact Or.inl ⟨rfl, hfull⟩
    · rw [hok, ← hiff]
      exact ih t

/-! ## The entry of the sender -/

/-- Under an id stands a live entry at a stratum. -/
def Holds (s : Beacons) (id : NodeId) (stratum : Strat) : Prop :=
  ∃ e, firstWith NeighbourT.id id s.neighbours = some e ∧ e.state ≠ 0 ∧ e.stratum = stratum

/-- What stands under the id of a record after it is recorded. -/
theorem firstWith_record (hself : b.id ≠ s.identifier) (h : s.record now b = .ok s') :
    firstWith NeighbourT.id b.id s'.neighbours = some (settled givesWay (neighbourOf now b)
      (firstWith NeighbourT.id b.id s.neighbours)) := by
  rcases record_cases h with ⟨heq, -⟩ | ⟨-, -, htable⟩
  · exact absurd heq hself
  · rw [htable]
    exact firstWith_upsert_self NeighbourT.id givesWay (neighbourOf now b) s.neighbours

theorem record_identifier (h : s.record now b = .ok s') : s'.identifier = s.identifier := by
  rcases record_cases h with ⟨-, rfl⟩ | ⟨-, hid, -⟩
  · rfl
  · exact hid

/-- A live entry at stratum 0 or 1 keeps its stratum: no record says less. -/
theorem Holds.record {id : NodeId} {k : Strat} (hk : k ≤ 1) (hid : id ≠ s.identifier)
    (hs : s.Holds id k) (h : s.record now b = .ok s') : s'.Holds id k := by
  obtain ⟨e, he, hlive, hstratum⟩ := hs
  by_cases hb : b.id = id
  · subst hb
    have hnew := firstWith_record hid h
    rw [he, settled_some] at hnew
    refine ⟨_, hnew, ?_⟩
    split
    · rename_i hgives
      have hle : (neighbourOf now b).stratum ≤ k := by
        simpa [givesWay, hlive, hstratum] using hgives
      have hone := one_le_neighbourOf_stratum now b
      refine ⟨one_ne_zero, UInt8.le_antisymm hle (UInt8.le_trans hk hone)⟩
    · exact ⟨hlive, hstratum⟩
  · refine ⟨e, ?_, hlive, hstratum⟩
    rcases record_cases h with ⟨-, rfl⟩ | ⟨-, -, htable⟩
    · exact he
    · have hkept : firstWith NeighbourT.id id
          (upsert NeighbourT.id givesWay (neighbourOf now b) s.neighbours) =
            firstWith NeighbourT.id id s.neighbours :=
        firstWith_upsert_of_ne fun h => hb h.symm
      rw [htable, hkept, he]

theorem Holds.foldlM_record {id : NodeId} {k : Strat} (hk : k ≤ 1) (hid : id ≠ s.identifier)
    (hs : s.Holds id k) (h : records.foldlM (Beacons.record now) s = .ok s') : s'.Holds id k :=
  (foldlM_keeps (I := fun t => t.identifier = s.identifier ∧ t.Holds id k)
    (fun _ _ _ _ ht hrecord => ⟨(record_identifier hrecord).trans ht.1,
      ht.2.record hk (by rw [ht.1]; exact hid) hrecord⟩) ⟨rfl, hs⟩ h).2

end Beacons

/-- A beacon of another node is recorded, with what stands behind it in memory left alone. -/
theorem beaconRecv_encodeList {s : Beacons} {first : BeaconT} {rest : List BeaconT}
    {behind : List UInt8} {now : Int} (hint : (rest.length + 1) * beaconLayout.size < 2 ^ 31)
    (hstratum : first.stratum = 0) (hother : first.id ≠ s.identifier) :
    beaconRecv s (beaconLayout.encodeList (first :: rest) ++ behind)
        ((rest.length + 1) * beaconLayout.size : Nat) now =
      (heard s.identifier (first :: rest)).foldlM (Beacons.record now) s := by
  have hfirst :
      beaconLayout.decode (beaconLayout.encodeList (first :: rest) ++ behind) = first := by
    rw [Packed.encodeList, List.flatMap_cons, List.append_assoc, Packed.decode_encode]
  have hcount : (rest.length + 1) * beaconLayout.size / beaconLayout.size = rest.length + 1 :=
    Nat.mul_div_cancel _ (by decide)
  have hlen : (beaconLayout.encodeList (first :: rest) ++ behind).length =
      (rest.length + 1) * beaconLayout.size + behind.length := by
    rw [List.length_append, Packed.length_encodeList, List.length_cons]
  have hall := beaconLayout.decodeList_encodeList (first :: rest) behind
  rw [List.length_cons] at hall
  have hsize : beaconLayout.size ≤ (rest.length + 1) * beaconLayout.size :=
    Nat.le_mul_of_pos_left _ (Nat.succ_pos _)
  rw [beaconRecv, hfirst, sizeT_natCast hint, if_neg (by rw [Nat.mul_mod_left]; decide),
    if_neg (by rw [hlen]; omega), if_neg (not_not.mpr hstratum), if_neg hother, hcount]
  have hshort : rest.length + 1 < 2 ^ 31 := by
    rw [beaconLayout_size] at hint
    omega
  rw [intOf_of_lt hshort, Int.toNat_natCast]
  dsimp only
  rw [if_neg (by rw [hlen]; omega), hall]

/-- The sender is known as one that is heard. -/
def Beacons.Hears (s : Beacons) (id : NodeId) : Prop :=
  ∃ e, firstWith NeighbourT.id id s.neighbours = some e ∧ e.state ≠ 0 ∧
    (e.stratum = 1 ∨ e.stratum = stratInf)

instance (s : Beacons) (id : NodeId) : Decidable (s.Hears id) :=
  match h : firstWith NeighbourT.id id s.neighbours with
  | none => isFalse fun ⟨e, he, _⟩ => by cases h.symm.trans he
  | some e => decidable_of_iff (e.state ≠ 0 ∧ (e.stratum = 1 ∨ e.stratum = stratInf))
      ⟨fun hheard => ⟨e, h, hheard⟩, fun ⟨e', he', hheard⟩ => by
        cases h.symm.trans he'
        exact hheard⟩

theorem Beacons.Holds.hears_iff {s : Beacons} {id : NodeId} {k : Strat} (h : s.Holds id k) :
    s.Hears id ↔ k = 1 ∨ k = stratInf := by
  obtain ⟨e, he, hlive, rfl⟩ := h
  refine ⟨fun ⟨e', he', _, hheard⟩ => ?_, fun hheard => ⟨e, he, hlive, hheard⟩⟩
  cases he.symm.trans he'
  exact hheard

/-- One record of an id leaves its entry as it is, if that is live and says more, or puts it at the
stratum of the record. -/
theorem Beacons.holds_record {s s' : Beacons} {now : Int} {b : BeaconT}
    (hself : b.id ≠ s.identifier) (h : s.record now b = .ok s') :
    (s'.Holds b.id (neighbourOf now b).stratum ∧
      ∀ old, firstWith NeighbourT.id b.id s.neighbours = some old → old.state ≠ 0 →
        (neighbourOf now b).stratum ≤ old.stratum) ∨
      ∃ old, firstWith NeighbourT.id b.id s.neighbours = some old ∧ old.state ≠ 0 ∧
        old.stratum < (neighbourOf now b).stratum ∧ s'.Holds b.id old.stratum := by
  have hnew := firstWith_record hself h
  cases hold : firstWith NeighbourT.id b.id s.neighbours with
  | none =>
    rw [hold, settled_none] at hnew
    exact Or.inl ⟨⟨_, hnew, one_ne_zero, rfl⟩, fun old h => by cases h⟩
  | some old =>
    rw [hold, settled_some] at hnew
    by_cases hgives : givesWay (neighbourOf now b) old
    · rw [if_pos hgives] at hnew
      refine Or.inl ⟨⟨_, hnew, one_ne_zero, rfl⟩, fun old' h hlive => ?_⟩
      cases h
      simpa [givesWay, hlive] using hgives
    · rw [if_neg hgives] at hnew
      rw [givesWay, Bool.or_eq_true, beq_iff_eq, decide_eq_true_iff, not_or, UInt8.not_le]
        at hgives
      exact Or.inr ⟨old, rfl, hgives.1, hgives.2, ⟨old, hnew, hgives.1, rfl⟩⟩

/-- A record of the sender at stratum 1 makes it one that is heard, unless a live entry of it is at
stratum 0, which gives way to nothing. The other records of the beacon change neither. -/
theorem Beacons.hears_iff_of_one {s s' : Beacons} {now : Int} {b : BeaconT} {rest : List BeaconT}
    (hself : b.id ≠ s.identifier) (hnew : (neighbourOf now b).stratum = 1)
    (h : (b :: rest).foldlM (Beacons.record now) s = .ok s') :
    s'.Hears b.id ↔ ∀ old, firstWith NeighbourT.id b.id s.neighbours = some old →
      old.state ≠ 0 → old.stratum ≠ 0 := by
  rw [List.foldlM_cons] at h
  cases hfirst : s.record now b with
  | error e =>
    rw [hfirst] at h
    cases h
  | ok t =>
    rw [hfirst] at h
    have hid : b.id ≠ t.identifier := by rwa [Beacons.record_identifier hfirst]
    rcases Beacons.holds_record hself hfirst with ⟨hholds, hle⟩ | ⟨old, hold, hlive, hlt, hholds⟩
    · rw [hnew] at hholds hle
      rw [(hholds.foldlM_record (by decide) hid h).hears_iff]
      refine iff_of_true (Or.inl rfl) fun old hold hlive hzero => ?_
      have hone := hle old hold hlive
      rw [hzero] at hone
      exact absurd hone (by decide)
    · have hzero : old.stratum = 0 := by
        rw [hnew, UInt8.lt_iff_toNat_lt] at hlt
        exact UInt8.toNat_inj.mp (Nat.lt_one_iff.mp hlt)
      rw [hzero] at hholds
      rw [(hholds.foldlM_record (by decide) hid h).hears_iff]
      exact iff_of_false (by decide) fun hall => hall old hold hlive hzero

/-- A record of the sender at `STRAT_INF` leaves it as it is, if it has a live entry. -/
theorem Beacons.hears_iff_of_inf {s s' : Beacons} {now : Int} {b : BeaconT}
    (hself : b.id ≠ s.identifier) (hnew : (neighbourOf now b).stratum = stratInf)
    (h : s.record now b = .ok s') :
    s'.Hears b.id ↔ ∀ old, firstWith NeighbourT.id b.id s.neighbours = some old →
      old.state ≠ 0 → old.stratum = 1 ∨ old.stratum = stratInf := by
  rcases Beacons.holds_record hself h with ⟨hholds, hle⟩ | ⟨old, hold, hlive, -, hholds⟩
  · rw [hnew] at hholds hle
    rw [hholds.hears_iff]
    refine iff_of_true (Or.inr rfl) fun old hold hlive => Or.inr ?_
    have hinf : old.stratum ≤ stratInf := UInt8.le_iff_toNat_le.mpr (by
      have hlt := old.stratum.toNat_lt
      have h255 : stratInf.toNat = 255 := rfl
      omega)
    exact UInt8.le_antisymm hinf (hle old hold hlive)
  · rw [hholds.hears_iff]
    constructor
    · intro hheard old' hold' _
      cases hold.symm.trans hold'
      exact hheard
    · exact fun hall => hall old hold hlive

/-- With room for a beacon of another node, the node records it, and then has its sender at stratum
1 or `STRAT_INF` exactly when it had no live entry of it, or one at 1 or `STRAT_INF`, or the sender
hears it and was not at stratum 0. -/
theorem beaconRecv_sender_iff {s : Beacons} {first : BeaconT} {rest : List BeaconT}
    {behind : List UInt8} {now : Int} (hint : (rest.length + 1) * beaconLayout.size < 2 ^ 31)
    (hstratum : first.stratum = 0) (hother : first.id ≠ s.identifier)
    (hroom : s.HasRoom (heard s.identifier (first :: rest))) :
    ∃ s', beaconRecv s (beaconLayout.encodeList (first :: rest) ++ behind)
        ((rest.length + 1) * beaconLayout.size : Nat) now = .ok s' ∧
      (s'.Hears first.id ↔
        ∀ old, firstWith NeighbourT.id first.id s.neighbours = some old → old.state ≠ 0 →
          old.stratum = 1 ∨ old.stratum = stratInf ∨
            rest.any (hearsUs s.identifier) ∧ old.stratum ≠ 0) := by
  rw [beaconRecv_encodeList hint hstratum hother]
  obtain ⟨s', hs', -⟩ := (s.foldlM_record_cases now _).resolve_left fun h => h.2 hroom
  refine ⟨s', hs', ?_⟩
  rw [heard] at hs'
  split at hs'
  · rename_i hlisted
    have hnew : (neighbourOf now first).stratum = 1 := by
      simp only [neighbourOf, hstratum]
      decide
    rw [Beacons.hears_iff_of_one hother hnew hs']
    refine forall₃_congr fun old _ _ => ?_
    constructor
    · exact fun hne => Or.inr (Or.inr ⟨hlisted, hne⟩)
    · rintro (hone | hinf | ⟨-, hne⟩)
      · simp [hone]
      · simp [hinf, stratInf]
      · exact hne
  · rename_i hunlisted
    let record := { first with stratum := stratInf }
    have hfirst : s.record now record = .ok s' := by
      simpa only [List.foldlM_cons, List.foldlM_nil, bind_pure] using hs'
    have hiff : s'.Hears first.id ↔ _ :=
      Beacons.hears_iff_of_inf (b := record) hother rfl hfirst
    rw [hiff]
    refine forall₃_congr fun old _ _ => or_congr_right ?_
    exact ⟨Or.inl, fun h => h.resolve_right fun hboth => hunlisted hboth.1⟩

/-- Node 1 hears node 2, which hears it, for the first time. -/
theorem beaconRecv_sender_iff_new :
    ∃ s', beaconRecv (beaconInit 1 zeroTape) (beaconBytes [(2, 0), (1, 255)] ++ [])
        ((1 + 1) * beaconLayout.size : Nat) 5 = .ok s' ∧
      (s'.Hears 2 ↔ ∀ old : NeighbourT,
        firstWith NeighbourT.id 2 (beaconInit 1 zeroTape).neighbours = some old → old.state ≠ 0 →
          old.stratum = 1 ∨ old.stratum = stratInf ∨
            [BeaconT.mk 1 255 fun _ => 0].any (hearsUs 1) ∧ old.stratum ≠ 0) :=
  @beaconRecv_sender_iff (beaconInit 1 zeroTape) ⟨2, 0, fun _ => 0⟩ [⟨1, 255, fun _ => 0⟩] [] 5
    (by decide) rfl (by decide) (by decide)

/-- Node 1 knows node 3 at stratum 2 through node 2. A beacon of node 3 itself, which does not hear
node 1, leaves it there. -/
theorem beaconRecv_sender_unheard : ∃ calls : List BeaconCall, ∃ s,
    Run (fun s c s' => s.call (fun _ _ => 0) c = .ok s') (beaconInit 1 zeroTape) calls s ∧
      s.HasRoom (heard s.identifier [⟨3, 0, fun _ => 0⟩]) ∧
      (beaconRecv s (beaconBytes [(3, 0)]) 15 1).map (fun s' => decide (s'.Hears 3)) = .ok false :=
  ⟨_, Run.exists_of_foldlM [.recv (beaconBytes [(2, 0), (1, 1), (3, 1)]) 45 0] (by decide +kernel)⟩

end OldRadio.First
