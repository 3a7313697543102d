import OldRadio.Second.Neigh

/-!
# Topologies

`topo.c`: the links of the simulated network, in a hash table with open
addressing. A slot whose two ends are equal counts as empty, so a link of a node
to itself is not stored.
-/

namespace OldRadio.Second

/-- A `topo_entry_t`; a slot that was never written has two ends zero. -/
structure TopoEntry where
  /-- The node that sends. -/
  src : NodeId
  /-- The node that hears it. -/
  dst : NodeId
  /-- The bits of the `float` probability of the link. -/
  prob : UInt32
  deriving DecidableEq, Repr

/-- `TOPO_TABLESIZE`. -/
def topoTablesize : Nat := 30000

/-- `TOPO_TABLEOFFS`. -/
def topoTableoffs : Nat := 30

/-- `TOPO_MAXENTRIES`. -/
def topoMaxentries : Nat := 9000

/-- Whether a slot counts as empty. -/
def TopoEntry.isEmpty (entry : TopoEntry) : Bool := entry.src == entry.dst

/-- A `topo_t`. -/
structure Topo where
  /-- The slots. -/
  table : Nat → TopoEntry
  /-- Number of slots filled. -/
  entries : Nat
  /-- The largest end of a link. -/
  maxId : NodeId
  /-- No link has a larger end. -/
  le_maxId : ∀ n, (table n).isEmpty = false →
    (table n).src.toNat ≤ maxId.toNat ∧ (table n).dst.toNat ≤ maxId.toNat

/-- `topo_new`. -/
def topoNew : Topo where
  table _ := { src := 0, dst := 0, prob := 0 }
  entries := 0
  maxId := 0
  le_maxId _ h := by cases h

/-- The slot of the loop of `topo_insert`, and whether it holds the same link already. The table is
never full, so the loop ends before it has seen every slot. -/
def topoSlot (table : Nat → TopoEntry) (entry : TopoEntry) : Nat → Nat → Nat × Bool
  | 0, n => (n, false)
  | fuel + 1, n =>
    if (table n).isEmpty then (n, false)
    else if (table n).src = entry.src ∧ (table n).dst = entry.dst then (n, true)
    else topoSlot table entry fuel ((n + 1) % topoTablesize)

/-- The slot where the links of a node start. -/
def topoOffs (src : NodeId) : Nat := topoTableoffs * src.toNat % topoTablesize

/-- The larger of two identities. -/
def topoMax (a b : NodeId) : NodeId := if a < b then b else a

theorem le_topoMax_left (a b : NodeId) : a.toNat ≤ (topoMax a b).toNat := by
  unfold topoMax
  split
  · rename_i h
    exact (UInt16.lt_iff_toNat_lt.mp h).le
  · exact le_rfl

theorem le_topoMax_right (a b : NodeId) : b.toNat ≤ (topoMax a b).toNat := by
  unfold topoMax
  split
  · exact le_rfl
  · rename_i h
    exact Nat.le_of_not_lt (mt UInt16.lt_iff_toNat_lt.mpr h)

theorem topoSlot_true {table : Nat → TopoEntry} {entry : TopoEntry} {fuel n m : Nat}
    (h : topoSlot table entry fuel n = (m, true)) :
    (table m).isEmpty = false ∧ (table m).src = entry.src ∧ (table m).dst = entry.dst := by
  induction fuel generalizing n with
  | zero => cases h
  | succ fuel ih =>
    rw [topoSlot] at h
    split at h
    · cases h
    · rename_i hempty
      split at h
      · rename_i hsame
        cases h
        exact ⟨Bool.eq_false_iff.mpr hempty, hsame⟩
      · exact ih h

/-- `topo_insert`. -/
def topoInsert (topo : Topo) (entry : TopoEntry) : Except Abort Topo :=
  if topo.entries < topoMaxentries then
    match h : topoSlot topo.table entry topoTablesize (topoOffs entry.src) with
    | (n, true) => .ok
      { topo with
        table := Function.update topo.table n entry
        le_maxId := fun m hm => by
          rcases eq_or_ne m n with rfl | hne
          · obtain ⟨hempty, hsrc, hdst⟩ := topoSlot_true h
            rw [Function.update_self, ← hsrc, ← hdst]
            exact topo.le_maxId m hempty
          · rw [Function.update_of_ne hne] at hm ⊢
            exact topo.le_maxId m hm }
    | (n, false) => .ok
      { table := Function.update topo.table n entry
        entries := topo.entries + 1
        maxId := topoMax (topoMax topo.maxId entry.src) entry.dst
        le_maxId := fun m hm => by
          have hsrc := (le_topoMax_right topo.maxId entry.src).trans
            (le_topoMax_left (topoMax topo.maxId entry.src) entry.dst)
          have hmax := (le_topoMax_left topo.maxId entry.src).trans
            (le_topoMax_left (topoMax topo.maxId entry.src) entry.dst)
          rcases eq_or_ne m n with rfl | hne
          · rw [Function.update_self]
            exact ⟨hsrc, le_topoMax_right _ _⟩
          · rw [Function.update_of_ne hne] at hm ⊢
            obtain ⟨h₁, h₂⟩ := topo.le_maxId m hm
            exact ⟨h₁.trans hmax, h₂.trans hmax⟩ }
  else .error .topoFull

/-- The insertions of `topo_file_read`, one for each line and direction with a probability. -/
def topoRead (links : List TopoEntry) : Except Abort Topo := links.foldlM topoInsert topoNew

/-- Reading stops at a full table. -/
theorem topoRead_error {links : List TopoEntry} {e : Abort} (h : topoRead links = .error e) :
    e = .topoFull := by
  refine error_of_foldlM (p := (· = .topoFull)) (fun topo entry e' he => ?_) h
  unfold topoInsert at he
  split at he
  · split at he
    · cases he
    · cases he
  · exact (Except.error.inj he).symm

theorem topoMax_cases (a b : NodeId) : topoMax a b = a ∨ topoMax a b = b := by
  unfold topoMax
  split
  · exact Or.inr rfl
  · exact Or.inl rfl

private theorem topoInsert_maxId {topo topo' : Topo} {entry : TopoEntry}
    (h : topoInsert topo entry = .ok topo') :
    topo'.maxId = topo.maxId ∨ topo'.maxId = entry.src ∨ topo'.maxId = entry.dst := by
  unfold topoInsert at h
  split at h
  · split at h
    · cases h
      exact Or.inl rfl
    · cases h
      dsimp only
      rcases topoMax_cases (topoMax topo.maxId entry.src) entry.dst with h₁ | h₁
      · rw [h₁]
        rcases topoMax_cases topo.maxId entry.src with h₂ | h₂
        · exact Or.inl h₂
        · exact Or.inr (Or.inl h₂)
      · exact Or.inr (Or.inr h₁)
  · cases h

/-- The largest identity is an end of a link, or zero when there is none. -/
theorem topoRead_maxId {links : List TopoEntry} {topo : Topo} (h : topoRead links = .ok topo)
    (p : NodeId → Prop) (hzero : p 0) (hlinks : ∀ l ∈ links, p l.src ∧ p l.dst) :
    p topo.maxId := by
  have hfold : ∀ (links : List TopoEntry) (topo₀ : Topo), p topo₀.maxId →
      (∀ l ∈ links, p l.src ∧ p l.dst) → links.foldlM topoInsert topo₀ = .ok topo →
      p topo.maxId := by
    intro links
    induction links with
    | nil =>
      intro topo₀ h₀ _ hrun
      cases hrun
      exact h₀
    | cons l links ih =>
      intro topo₀ h₀ hl hrun
      rw [List.foldlM_cons] at hrun
      obtain ⟨topo₁, hins, hrun⟩ := bind_eq_ok hrun
      refine ih topo₁ ?_ (fun l' hl' => hl l' (List.mem_cons_of_mem l hl')) hrun
      obtain ⟨hsrc, hdst⟩ := hl l List.mem_cons_self
      rcases topoInsert_maxId hins with heq | heq | heq
      · rwa [heq]
      · rwa [heq]
      · rwa [heq]
  exact hfold links topoNew hzero hlinks h

/-! ## Links -/

/-- What `topo_iter_next` returns one after the other from a slot. -/
def topoIterFrom (table : Nat → TopoEntry) (src : NodeId) : Nat → Nat → List TopoEntry
  | 0, _ => []
  | fuel + 1, offs =>
    if (table offs).isEmpty then []
    else if (table offs).src = src then
      table offs :: topoIterFrom table src fuel ((offs + 1) % topoTablesize)
    else topoIterFrom table src fuel ((offs + 1) % topoTablesize)

/-- What `topo_iter_next` returns one after the other: the links that leave a node. -/
def topoIter (topo : Topo) (src : NodeId) : List TopoEntry :=
  topoIterFrom topo.table src topoTablesize (topoOffs src)

/-- A link of the topology. -/
def Topo.Link (topo : Topo) (src dst : NodeId) : Prop :=
  src ≠ dst ∧ ∃ n, (topo.table n).src = src ∧ (topo.table n).dst = dst

private theorem mem_topoIterFrom {table : Nat → TopoEntry} {src : NodeId} {fuel offs : Nat}
    {entry : TopoEntry} (h : entry ∈ topoIterFrom table src fuel offs) :
    ∃ n, table n = entry ∧ entry.isEmpty = false ∧ entry.src = src := by
  induction fuel generalizing offs with
  | zero => cases h
  | succ fuel ih =>
    rw [topoIterFrom] at h
    split at h
    · cases h
    · rename_i hempty
      split at h
      · rename_i hsrc
        rcases List.mem_cons.mp h with rfl | h
        · exact ⟨offs, rfl, Bool.eq_false_iff.mpr hempty, hsrc⟩
        · exact ih h
      · exact ih h

/-- Iteration yields links of the node only. -/
theorem link_of_mem_topoIter {topo : Topo} {src : NodeId} {entry : TopoEntry}
    (h : entry ∈ topoIter topo src) : topo.Link src entry.dst := by
  obtain ⟨n, rfl, hempty, rfl⟩ := mem_topoIterFrom h
  exact ⟨beq_eq_false_iff_ne.mp hempty, n, rfl, rfl⟩

theorem Topo.Link.le_maxId {topo : Topo} {src dst : NodeId} (h : topo.Link src dst) :
    src.toNat ≤ topo.maxId.toNat ∧ dst.toNat ≤ topo.maxId.toNat := by
  obtain ⟨hne, n, rfl, rfl⟩ := h
  exact topo.le_maxId n (beq_eq_false_iff_ne.mpr hne)

end OldRadio.Second
