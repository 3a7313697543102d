import OldRadio.Second.Loc
import OldRadio.Second.Vtime

/-!
# Neighbour tables

`neigh.c`: a table of at most `NEIGH_MAX` neighbours in the order they were
first heard of. An entry is live as long as its expiry time is not zero.
-/

namespace OldRadio.Second

open Library

/-- `neigh_id_t` and `node_id_t`. -/
abbrev NodeId := UInt16

/-- `neigh_stratum_t` and `node_stratum_t`. -/
abbrev Stratum := UInt8

/-- `NEIGH_ID_INVALID` and `NODE_ID_INVALID`. -/
def nodeIdInvalid : NodeId := 0xFFFF

/-- `NEIGH_STRATUM_INF`. -/
def neighStratumInf : Stratum := 10

/-- `NEIGH_MAX`. -/
def neighMax : Nat := 50

/-- `NEIGH_EXPIRY_TIMEOUT`. -/
def neighExpiryTimeout : Nat := 30 * vtimeSeconds

/-- A `neigh_t`. -/
structure Neigh where
  /-- The neighbour. -/
  id : NodeId
  /-- Its distance in links, or `NEIGH_STRATUM_INF` if it was heard but has not answered. -/
  stratum : Stratum
  /-- Its virtual location. -/
  loc : Loc
  deriving DecidableEq, Repr

/-- The packed layout of a `neigh_t`. -/
def neighLayout : Packed Neigh :=
  (Packed.uint16.prod (Packed.uint8.prod locLayout)).via
    (fun p => { id := p.1, stratum := p.2.1, loc := p.2.2 })
    (fun n => (n.id, n.stratum, n.loc)) fun _ => rfl

@[simp] theorem neighLayout_size : neighLayout.size = 15 := rfl

/-- A `neigh_entry_t`. -/
structure NeighEntry where
  /-- The neighbour. -/
  neigh : Neigh
  /-- When the entry expires. -/
  expiry : VTime
  deriving DecidableEq, Repr

/-- A `neigh_table_t`. -/
structure NeighTable where
  /-- The entries in use. -/
  entries : List NeighEntry
  /-- There is room for them. -/
  length_le : entries.length ≤ neighMax

/-- `neigh_table_new`. -/
def neighTableNew : NeighTable := { entries := [], length_le := by decide }

/-- Whether `neigh_table_insert` replaces an entry `old` of the same node. -/
def neighReplaces (neigh old : Neigh) : Bool :=
  neigh.stratum == neighStratumInf && decide (1 < old.stratum) ||
    decide (neigh.stratum ≤ old.stratum)

/-- The loop of `neigh_table_insert`: the entries with the one of the same node
treated, or nothing if there is none. -/
def neighOverwrite (entry : NeighEntry) : List NeighEntry → Option (List NeighEntry)
  | [] => none
  | old :: rest =>
    if old.neigh.id = entry.neigh.id then
      some ((if neighReplaces entry.neigh old.neigh then entry else old) :: rest)
    else (neighOverwrite entry rest).map (old :: ·)

theorem length_neighOverwrite {entry : NeighEntry} {entries entries' : List NeighEntry}
    (h : neighOverwrite entry entries = some entries') : entries'.length = entries.length := by
  induction entries generalizing entries' with
  | nil => cases h
  | cons old rest ih =>
    rw [neighOverwrite] at h
    split at h
    · cases h
      rfl
    · obtain ⟨rest', hrest, rfl⟩ := Option.map_eq_some_iff.mp h
      rw [List.length_cons, List.length_cons, ih hrest]

/-- Overwriting changes no entry into anything but the new one. -/
theorem mem_of_neighOverwrite {entry e : NeighEntry} {entries entries' : List NeighEntry}
    (h : neighOverwrite entry entries = some entries') (he : e ∈ entries') :
    e = entry ∨ e ∈ entries := by
  induction entries generalizing entries' with
  | nil => cases h
  | cons old rest ih =>
    rw [neighOverwrite] at h
    split at h
    · cases h
      rcases List.mem_cons.mp he with rfl | he
      · split
        · exact Or.inl rfl
        · exact Or.inr List.mem_cons_self
      · exact Or.inr (List.mem_cons_of_mem old he)
    · obtain ⟨rest', hrest, rfl⟩ := Option.map_eq_some_iff.mp h
      rcases List.mem_cons.mp he with rfl | he
      · exact Or.inr List.mem_cons_self
      · exact (ih hrest he).imp_right (List.mem_cons_of_mem old)

/-- `neigh_table_insert`. -/
def neighTableInsert (table : NeighTable) (neigh : Neigh) (vtime : VTime) :
    Except Abort NeighTable :=
  let entry : NeighEntry := { neigh, expiry := vtime.after neighExpiryTimeout }
  match h : neighOverwrite entry table.entries with
  | some entries =>
    .ok { entries, length_le := (length_neighOverwrite h).trans_le table.length_le }
  | none =>
    if room : table.entries.length < neighMax then
      .ok
        { entries := table.entries ++ [entry]
          length_le := by rw [List.length_append, List.length_singleton]; exact room }
    else .error .neighTableFull

/-- An insertion stores the neighbour it is given, or nothing new. -/
theorem mem_of_neighTableInsert {table table' : NeighTable} {neigh : Neigh} {vtime : VTime}
    {e : NeighEntry} (h : neighTableInsert table neigh vtime = .ok table')
    (he : e ∈ table'.entries) : e.neigh = neigh ∨ e ∈ table.entries := by
  rw [neighTableInsert] at h
  split at h
  · rename_i entries hover
    cases h
    exact (mem_of_neighOverwrite hover he).imp_left fun h => by rw [h]
  · split at h
    · cases h
      rcases List.mem_append.mp he with he | he
      · exact Or.inr he
      · rw [List.mem_singleton.mp he]
        exact Or.inl rfl
    · cases h

/-- The nodes that have an entry. -/
def NeighTable.ids (table : NeighTable) : Finset NodeId :=
  (table.entries.map fun e => e.neigh.id).toFinset

@[simp] theorem neighTableNew_ids : neighTableNew.ids = ∅ := rfl

theorem NeighTable.mem_ids {table : NeighTable} {id : NodeId} :
    id ∈ table.ids ↔ ∃ e ∈ table.entries, e.neigh.id = id := by
  simp [NeighTable.ids]

/-- Overwriting finds the entry of the node if there is one, and leaves every entry its node. -/
theorem neighOverwrite_ids (entry : NeighEntry) (entries : List NeighEntry) :
    (neighOverwrite entry entries = none ∧ ∀ e ∈ entries, e.neigh.id ≠ entry.neigh.id) ∨
      ∃ entries', neighOverwrite entry entries = some entries' ∧
        (∃ e ∈ entries, e.neigh.id = entry.neigh.id) ∧
        (entries'.map fun e => e.neigh.id) = entries.map fun e => e.neigh.id := by
  induction entries with
  | nil => exact Or.inl ⟨rfl, fun e he => absurd he List.not_mem_nil⟩
  | cons old rest ih =>
    rw [neighOverwrite]
    by_cases hid : old.neigh.id = entry.neigh.id
    · rw [if_pos hid]
      refine Or.inr ⟨_, rfl, ⟨old, List.mem_cons_self, hid⟩, ?_⟩
      rw [List.map_cons, List.map_cons]
      split
      · rw [hid]
      · rfl
    · rw [if_neg hid]
      rcases ih with ⟨hnone, hne⟩ | ⟨rest', hrest, ⟨e, he, heq⟩, hmap⟩
      · rw [hnone]
        refine Or.inl ⟨rfl, fun e he => ?_⟩
        rcases List.mem_cons.mp he with rfl | he
        · exact hid
        · exact hne e he
      · rw [hrest]
        refine Or.inr ⟨_, rfl, ⟨e, List.mem_cons_of_mem old he, heq⟩, ?_⟩
        rw [List.map_cons, List.map_cons, hmap]

/-- An insertion finds the entry of its node, or takes a new one while there is room. -/
theorem neighTableInsert_ids (table : NeighTable) (neigh : Neigh) (vtime : VTime) :
    (neighTableInsert table neigh vtime = .error .neighTableFull ∧ neigh.id ∉ table.ids ∧
        table.entries.length = neighMax) ∨
      ∃ table', neighTableInsert table neigh vtime = .ok table' ∧
        table'.ids = insert neigh.id table.ids ∧
        table'.entries.length = table.entries.length + if neigh.id ∈ table.ids then 0 else 1 := by
  rcases neighOverwrite_ids { neigh, expiry := vtime.after neighExpiryTimeout } table.entries with
    ⟨hover, hne⟩ | ⟨entries, hover, hmem, hmap⟩
  · have hnew : neigh.id ∉ table.ids := fun hid => by
      obtain ⟨e, he, heq⟩ := NeighTable.mem_ids.mp hid
      exact hne e he heq
    rw [neighTableInsert]
    split
    · rename_i entries hsome
      rw [hover] at hsome
      cases hsome
    · split
      · refine Or.inr ⟨_, rfl, ?_, ?_⟩
        · rw [NeighTable.ids, List.map_append, List.toFinset_append, Finset.union_comm]
          rfl
        · rw [List.length_append, List.length_singleton]
      · rename_i hfull
        exact Or.inl ⟨rfl, hnew, le_antisymm table.length_le (Nat.le_of_not_lt hfull)⟩
  · have hold : neigh.id ∈ table.ids := NeighTable.mem_ids.mpr hmem
    rw [neighTableInsert]
    split
    · rename_i entries' hsome
      cases hover.symm.trans hsome
      refine Or.inr ⟨_, rfl, ?_, ?_⟩
      · rw [Finset.insert_eq_of_mem hold, NeighTable.ids, NeighTable.ids, hmap]
      · rw [if_pos hold, Nat.add_zero, length_neighOverwrite hover]
    · rename_i hnone
      rw [hover] at hnone
      cases hnone

/-- An insertion stops at a full table only. -/
theorem neighTableInsert_error {table : NeighTable} {neigh : Neigh} {vtime : VTime} {e : Abort}
    (h : neighTableInsert table neigh vtime = .error e) : e = .neighTableFull := by
  rw [neighTableInsert] at h
  split at h
  · cases h
  · split at h
    · cases h
    · exact (Except.error.inj h).symm

/-- What `neigh_iter_next` returns one after the other: the neighbours of the live entries. -/
def neighIter (table : NeighTable) : List Neigh :=
  (table.entries.filter fun e => e.expiry != 0).map NeighEntry.neigh

theorem mem_neighIter {table : NeighTable} {n : Neigh} :
    n ∈ neighIter table ↔ ∃ e ∈ table.entries, e.expiry ≠ 0 ∧ e.neigh = n := by
  simp [neighIter, and_assoc]

/-- Every live neighbour is one that was inserted. -/
theorem exists_entry_of_mem_neighIter {table : NeighTable} {n : Neigh} (h : n ∈ neighIter table) :
    ∃ e ∈ table.entries, e.neigh = n := by
  obtain ⟨e, he, -, hn⟩ := mem_neighIter.mp h
  exact ⟨e, he, hn⟩

end OldRadio.Second
