import OldRadio.Library.Keyed
import OldRadio.Library.Program
import OldRadio.Second.Neigh

/-!
# The rules of a neighbour table

What a history of insertions and culls makes of a neighbour table. No node has
two entries, and an insertion leaves the other nodes alone. The comment in
`neigh_table_insert` lets an expired entry be replaced, which the code does not
look at; `neigh_table_cull` drops the entries that have time left and keeps the
expired ones.
-/

namespace OldRadio.Second

open Library

/-- The node that an entry is for. -/
def NeighEntry.id (e : NeighEntry) : NodeId := e.neigh.id

/-- The entry of a node. -/
def NeighTable.entryOf (table : NeighTable) (id : NodeId) : Option NeighEntry :=
  firstWith NeighEntry.id id table.entries

/-- No node has two entries. -/
def NeighTable.Distinct (table : NeighTable) : Prop := (table.entries.map NeighEntry.id).Nodup

/-- The entry that an insertion makes. -/
def neighStored (neigh : Neigh) (vtime : VTime) : NeighEntry :=
  { neigh, expiry := vtime.after neighExpiryTimeout }

/-- Whether an insertion replaces an entry of the same node. -/
def entryReplaces (new old : NeighEntry) : Bool := neighReplaces new.neigh old.neigh

/-- The loop of `neigh_table_insert` searches a list with keys. -/
theorem neighOverwrite_eq (entry : NeighEntry) (entries : List NeighEntry) :
    neighOverwrite entry entries = overwrite NeighEntry.id entryReplaces entry entries := by
  induction entries with
  | nil => rfl
  | cons old rest ih =>
    rw [neighOverwrite, overwrite, ih]
    rfl

/-- `neigh_table_insert` puts its entry into a list with keys. -/
theorem neighTableInsert_entries {table table' : NeighTable} {neigh : Neigh} {vtime : VTime}
    (h : neighTableInsert table neigh vtime = .ok table') :
    table'.entries = upsert NeighEntry.id entryReplaces (neighStored neigh vtime)
      table.entries := by
  rw [neighTableInsert] at h
  split at h
  · rename_i entries hover
    rw [neighOverwrite_eq] at hover
    cases h
    rw [upsert, neighStored, hover, Option.getD_some]
  · rename_i hover
    rw [neighOverwrite_eq] at hover
    split at h
    · cases h
      rw [upsert, neighStored, hover, Option.getD_none]
    · cases h

/-- A table with room takes every insertion. -/
theorem neighTableInsert_room {table : NeighTable} (h : table.entries.length < neighMax)
    (neigh : Neigh) (vtime : VTime) :
    ∃ table', neighTableInsert table neigh vtime = .ok table' := by
  rcases neighTableInsert_ids table neigh vtime with ⟨-, -, hfull⟩ | ⟨table', hok, -⟩
  · omega
  · exact ⟨table', hok⟩

/-- What stands under a node after an insertion of it. -/
theorem neighTableInsert_entryOf_self {table table' : NeighTable} {neigh : Neigh} {vtime : VTime}
    (h : neighTableInsert table neigh vtime = .ok table') :
    table'.entryOf neigh.id =
      some (settled entryReplaces (neighStored neigh vtime) (table.entryOf neigh.id)) := by
  rw [NeighTable.entryOf, neighTableInsert_entries h]
  exact firstWith_upsert_self NeighEntry.id entryReplaces (neighStored neigh vtime) table.entries

/-- An insertion leaves the entries of other nodes alone. -/
theorem neighTableInsert_entryOf_of_ne {table table' : NeighTable} {neigh : Neigh} {vtime : VTime}
    {id : NodeId} (h : neighTableInsert table neigh vtime = .ok table') (hid : id ≠ neigh.id) :
    table'.entryOf id = table.entryOf id := by
  rw [NeighTable.entryOf, neighTableInsert_entries h]
  exact firstWith_upsert_of_ne hid

theorem neighTableNew_distinct : neighTableNew.Distinct := List.nodup_nil

theorem NeighTable.Distinct.insert {table table' : NeighTable} {neigh : Neigh} {vtime : VTime}
    (hdistinct : table.Distinct) (h : neighTableInsert table neigh vtime = .ok table') :
    table'.Distinct := by
  rw [NeighTable.Distinct, neighTableInsert_entries h]
  exact nodup_upsert hdistinct

/-! ## Culling -/

/-- One turn of the loop of `neigh_table_cull`. -/
def NeighEntry.culled (vtime : VTime) (e : NeighEntry) : NeighEntry :=
  if vtime ≤ e.expiry then { e with expiry := 0 } else e

/-- `neigh_table_cull`. -/
def neighTableCull (table : NeighTable) (vtime : VTime) : NeighTable :=
  { entries := table.entries.map (NeighEntry.culled vtime)
    length_le := by rw [List.length_map]; exact table.length_le }

@[simp] theorem NeighEntry.culled_neigh (vtime : VTime) (e : NeighEntry) :
    (e.culled vtime).neigh = e.neigh := by
  rw [NeighEntry.culled]
  split <;> rfl

@[simp] theorem NeighEntry.culled_id (vtime : VTime) (e : NeighEntry) :
    (e.culled vtime).id = e.id := congrArg Neigh.id (e.culled_neigh vtime)

/-- The entries that are live after a cull are those that were and have expired. -/
theorem NeighEntry.culled_live (vtime : VTime) (e : NeighEntry) :
    ((e.culled vtime).expiry != 0) = (e.expiry != 0 && !decide (vtime ≤ e.expiry)) := by
  rw [NeighEntry.culled]
  by_cases h : vtime ≤ e.expiry
  · simp [h]
  · simp [h]

theorem NeighTable.Distinct.cull {table : NeighTable} (h : table.Distinct) (vtime : VTime) :
    (neighTableCull table vtime).Distinct := by
  have hmap : NeighEntry.id ∘ NeighEntry.culled vtime = NeighEntry.id :=
    funext (NeighEntry.culled_id vtime)
  rw [NeighTable.Distinct, neighTableCull, List.map_map, hmap]
  exact h

/-- The entries that iterating goes over. -/
def NeighTable.live (table : NeighTable) : List NeighEntry :=
  table.entries.filter fun e => e.expiry != 0

theorem neighIter_neighTableCull (table : NeighTable) (vtime : VTime) :
    neighIter (neighTableCull table vtime) =
      (table.live.filter fun e => !decide (vtime ≤ e.expiry)).map NeighEntry.neigh := by
  have hneigh : NeighEntry.neigh ∘ NeighEntry.culled vtime = NeighEntry.neigh :=
    funext (NeighEntry.culled_neigh vtime)
  rw [neighIter, neighTableCull, List.filter_map, List.map_map, hneigh, NeighTable.live,
    List.filter_filter]
  congr 2
  funext e
  rw [Function.comp_apply, NeighEntry.culled_live, Bool.and_comm]

/-! ## Histories -/

/-- A call that changes a neighbour table. -/
inductive NeighOp where
  /-- A call of `neigh_table_insert`. -/
  | insert (neigh : Neigh) (vtime : VTime)
  /-- A call of `neigh_table_cull`. -/
  | cull (vtime : VTime)

/-- The time that a call is given. -/
def NeighOp.vtime : NeighOp → VTime
  | .insert _ vtime => vtime
  | .cull vtime => vtime

/-- The table after a call. -/
def NeighOp.apply (table : NeighTable) : NeighOp → Except Abort NeighTable
  | .insert neigh vtime => neighTableInsert table neigh vtime
  | .cull vtime => .ok (neighTableCull table vtime)

/-- The table after a sequence of calls. -/
def neighRun (calls : List NeighOp) : Except Abort NeighTable :=
  calls.foldlM NeighOp.apply neighTableNew

theorem NeighTable.Distinct.apply {table table' : NeighTable} (hdistinct : table.Distinct)
    {call : NeighOp} (h : call.apply table = .ok table') : table'.Distinct := by
  cases call with
  | insert neigh vtime => exact hdistinct.insert h
  | cull vtime =>
    cases h
    exact hdistinct.cull vtime

/-- No history gives a node two entries. -/
theorem neighRun_distinct {calls : List NeighOp} {table : NeighTable}
    (h : neighRun calls = .ok table) : table.Distinct :=
  foldlM_keeps (I := NeighTable.Distinct) (fun _ _ _ _ hd hcall => hd.apply hcall)
    neighTableNew_distinct h

/-! ## What an insertion does -/

/-- The entry has expired or was dropped. -/
def NeighEntry.ExpiredAt (e : NeighEntry) (vtime : VTime) : Prop :=
  e.expiry = 0 ∨ e.expiry < vtime

instance (e : NeighEntry) (vtime : VTime) : Decidable (e.ExpiredAt vtime) :=
  inferInstanceAs (Decidable (_ ∨ _))

/-- Whether the entry of a node is to be replaced: by the same or a lower stratum, by any stratum
once it has expired, and by the mark of a node that was only heard over a stratum above 1. -/
def NeighEntry.GivesWay (old : NeighEntry) (neigh : Neigh) (vtime : VTime) : Prop :=
  neigh.stratum ≤ old.neigh.stratum ∨ old.ExpiredAt vtime ∨
    neigh.stratum = neighStratumInf ∧ 1 < old.neigh.stratum

instance (old : NeighEntry) (neigh : Neigh) (vtime : VTime) :
    Decidable (old.GivesWay neigh vtime) := inferInstanceAs (Decidable (_ ∨ _))

/-- The documented rule of `neigh_table_insert`. -/
structure NeighTable.InsertRule (table : NeighTable) (neigh : Neigh) (vtime : VTime)
    (table' : NeighTable) : Prop where
  /-- No node has two entries. -/
  distinct : table'.Distinct
  /-- The entries of other nodes stay as they are and in their order. -/
  others : (table'.entries.filter fun e => e.id ≠ neigh.id) =
    table.entries.filter fun e => e.id ≠ neigh.id
  /-- The entry of the node is a new one if there was none. -/
  fresh : table.entryOf neigh.id = none → table'.entryOf neigh.id = some (neighStored neigh vtime)
  /-- The entry of the node is a new one if the old one is to be replaced, else the old one. -/
  known : ∀ old, table.entryOf neigh.id = some old → table'.entryOf neigh.id =
    some (if old.GivesWay neigh vtime then neighStored neigh vtime else old)

/-- Everything that has expired is replaced on its stratum alone. -/
def NeighTable.ExpiredReplaced (table : NeighTable) (neigh : Neigh) (vtime : VTime) : Prop :=
  ∀ old, table.entryOf neigh.id = some old → old.ExpiredAt vtime →
    neighReplaces neigh old.neigh = true

theorem neighReplaces_iff {neigh old : Neigh} : neighReplaces neigh old = true ↔
    neigh.stratum ≤ old.stratum ∨ neigh.stratum = neighStratumInf ∧ 1 < old.stratum := by
  simp [neighReplaces, or_comm]

/-- What is replaced does give way. -/
theorem NeighEntry.givesWay_iff {old : NeighEntry} {neigh : Neigh} {vtime : VTime} :
    old.GivesWay neigh vtime ↔ neighReplaces neigh old.neigh = true ∨ old.ExpiredAt vtime := by
  rw [neighReplaces_iff, NeighEntry.GivesWay, or_assoc, or_comm (a := old.ExpiredAt vtime)]

/-- An entry that is not replaced is not the new one. -/
theorem ne_neighStored {old : NeighEntry} {neigh : Neigh} {vtime : VTime}
    (h : neighReplaces neigh old.neigh ≠ true) : old ≠ neighStored neigh vtime := by
  rintro rfl
  exact h (neighReplaces_iff.mpr (Or.inl (UInt8.le_refl _)))

/-- A table with room meets the documented rule of an insertion exactly when the code replaces
the entry of the node on its stratum if it has expired. -/
theorem insertRule_iff {calls : List NeighOp} {table : NeighTable}
    (h : neighRun calls = .ok table) (neigh : Neigh) (vtime : VTime)
    (hroom : table.entries.length < neighMax) :
    ∃ table', neighTableInsert table neigh vtime = .ok table' ∧
      (table.InsertRule neigh vtime table' ↔ table.ExpiredReplaced neigh vtime) := by
  obtain ⟨table', hok⟩ := neighTableInsert_room hroom neigh vtime
  have hself := neighTableInsert_entryOf_self hok
  refine ⟨table', hok, fun hrule old hold hexpired => ?_, fun hexpired => ?_⟩
  · by_contra hkept
    have hknown := hrule.known old hold
    have hsettled : settled entryReplaces (neighStored neigh vtime) (some old) = old :=
      if_neg hkept
    rw [hself, hold, if_pos (NeighEntry.givesWay_iff.mpr (Or.inr hexpired)), hsettled] at hknown
    exact ne_neighStored hkept (Option.some.inj hknown)
  · refine ⟨(neighRun_distinct h).insert hok, ?_, fun hnone => ?_, fun old hold => ?_⟩
    · rw [neighTableInsert_entries hok]
      exact filter_upsert NeighEntry.id entryReplaces (neighStored neigh vtime) table.entries
    · rw [hself, hnone]
      rfl
    · have hiff : old.GivesWay neigh vtime ↔ neighReplaces neigh old.neigh = true :=
        NeighEntry.givesWay_iff.trans (or_iff_left_of_imp (hexpired old hold))
      rw [hself, hold]
      simp only [hiff]
      rfl

/-- A neighbour that was heard directly. -/
def neighHeard : Neigh := { id := 1, stratum := 1, loc := locZero }

/-- A table with the entry of `neighHeard`, as inserted at the beginning. -/
def neighTableHeard : NeighTable :=
  { entries := [{ neigh := neighHeard, expiry := 30000000 }], length_le := by decide }

/-- A higher stratum leaves an entry that has not expired. -/
theorem insertRule_heard : ∃ table', neighTableInsert neighTableHeard
    { neighHeard with stratum := 2 } 1000000 = .ok table' ∧
    (neighTableHeard.InsertRule { neighHeard with stratum := 2 } 1000000 table' ↔
      neighTableHeard.ExpiredReplaced { neighHeard with stratum := 2 } 1000000) :=
  insertRule_iff (show neighRun [.insert neighHeard 0] = .ok neighTableHeard from rfl) _ _
    (by decide)

/-- A higher stratum leaves an entry that has expired as well. -/
theorem insertRule_stale : ¬ ∀ (calls : List NeighOp) (table table' : NeighTable) (neigh : Neigh)
    (vtime : VTime), neighRun calls = .ok table → table.entries.length < neighMax →
    neighTableInsert table neigh vtime = .ok table' → table.InsertRule neigh vtime table' := by
  intro hall
  have hrule := hall [.insert neighHeard 0] neighTableHeard neighTableHeard
    { neighHeard with stratum := 2 } 31000000 rfl (by decide) rfl
  have hknown := hrule.known { neigh := neighHeard, expiry := 30000000 } rfl
  revert hknown
  decide

/-! ## What a cull does -/

/-- Culling drops the expired entries and no other. -/
structure NeighTable.CullRule (table : NeighTable) (vtime : VTime) (table' : NeighTable) :
    Prop where
  /-- The live entries that have not expired stay, in their order. -/
  kept : neighIter table' =
    (table.live.filter fun e => vtime ≤ e.expiry).map NeighEntry.neigh
  /-- No live entry has expired. -/
  gone : ∀ e ∈ table'.live, ¬ e.expiry < vtime

theorem neighIter_eq (table : NeighTable) : neighIter table = table.live.map NeighEntry.neigh := rfl

/-- After any history a cull drops exactly the expired entries only if no entry is live. -/
theorem cullRule_iff {calls : List NeighOp} {table : NeighTable} (h : neighRun calls = .ok table)
    (vtime : VTime) :
    table.CullRule vtime (neighTableCull table vtime) ↔ neighIter table = [] := by
  have hcull := neighIter_neighTableCull table vtime
  constructor
  · intro hrule
    have hnodup : (table.live.map NeighEntry.id).Nodup :=
      (neighRun_distinct h).sublist (List.filter_sublist.map NeighEntry.id)
    have hids := congrArg (List.map Neigh.id) (hrule.kept.symm.trans hcull)
    rw [List.map_map, List.map_map] at hids
    rw [neighIter_eq, eq_nil_of_map_filter hnodup hids]
    rfl
  · intro hnil
    have hlive : table.live = [] := List.map_eq_nil_iff.mp hnil
    rw [hlive] at hcull
    have hnone : (neighTableCull table vtime).live = [] := List.map_eq_nil_iff.mp hcull
    refine ⟨by rw [hcull, hlive]; rfl, fun e he => ?_⟩
    rw [hnone] at he
    exact absurd he List.not_mem_nil

/-- A second cull finds nothing live. -/
theorem cullRule_dropped : (neighTableCull neighTableHeard 1000000).CullRule 31000000
    (neighTableCull (neighTableCull neighTableHeard 1000000) 31000000) ↔
    neighIter (neighTableCull neighTableHeard 1000000) = [] :=
  cullRule_iff (show neighRun [.insert neighHeard 0, .cull 1000000] = .ok _ from rfl) 31000000

/-- A cull drops an entry that has 29 seconds left. -/
theorem cullRule_fresh : ¬ ∀ (calls : List NeighOp) (table : NeighTable) (vtime : VTime),
    (calls.map NeighOp.vtime).Pairwise (· ≤ ·) → neighRun calls = .ok table →
    table.CullRule vtime (neighTableCull table vtime) := by
  intro hall
  have hrule := hall [.insert neighHeard 0] neighTableHeard 1000000 (by decide) rfl
  have hkept := hrule.kept
  revert hkept
  decide

end OldRadio.Second
