import OldRadio.Second.TopoLinks

/-!
# Iterating over the links of a node

The two loops of `topo_iter_next` and of its caller as they run: each call goes
on from where the last one stopped and ends at a free slot, which every round
meets. What the calls return is, for each link of the node, the entry that was
inserted for it last.
-/

namespace OldRadio.Second

open Library

/-- One call of `topo_iter_next` at an offset: the entry that it returns with the offset that it
leaves, or `NULL`. -/
inductive IterNext (table : Nat → TopoEntry) (src : NodeId) :
    Nat → Option (TopoEntry × Nat) → Prop where
  /-- The slot is empty. -/
  | null {offs : Nat} (empty : (table offs).isEmpty = true) : IterNext table src offs none
  /-- The slot has a link of the node. -/
  | entry {offs : Nat} (full : (table offs).isEmpty = false) (same : (table offs).src = src) :
      IterNext table src offs (some (table offs, (offs + 1) % topoTablesize))
  /-- The slot has a link of another node. -/
  | skip {offs : Nat} {result : Option (TopoEntry × Nat)} (full : (table offs).isEmpty = false)
      (other : (table offs).src ≠ src)
      (next : IterNext table src ((offs + 1) % topoTablesize) result) :
      IterNext table src offs result

/-- What calling `topo_iter_next` from an offset returns, up to the first `NULL`. -/
inductive Iterates (table : Nat → TopoEntry) (src : NodeId) : Nat → List TopoEntry → Prop where
  | done {offs : Nat} (null : IterNext table src offs none) : Iterates table src offs []
  | next {offs offs' : Nat} {e : TopoEntry} {es : List TopoEntry}
      (entry : IterNext table src offs (some (e, offs'))) (rest : Iterates table src offs' es) :
      Iterates table src offs (e :: es)

theorem Iterates.skip {table : Nat → TopoEntry} {src : NodeId} {offs : Nat}
    {es : List TopoEntry} (full : (table offs).isEmpty = false) (other : (table offs).src ≠ src)
    (h : Iterates table src ((offs + 1) % topoTablesize) es) : Iterates table src offs es := by
  cases h with
  | done null => exact .done (.skip full other null)
  | next entry rest => exact .next (.skip full other entry) rest

/-- The calls end once they come to a free slot. -/
theorem iterates_topoIterFrom {table : Nat → TopoEntry} (src : NodeId) {home d fuel : Nat}
    (hfuel : d < fuel) (c : Nat)
    (hfree : slotFull table (slotFrom topoTablesize home (c + d)) = false) :
    Iterates table src (slotFrom topoTablesize home c)
      (topoIterFrom table src fuel (slotFrom topoTablesize home c)) := by
  induction fuel generalizing c d with
  | zero => omega
  | succ fuel ih =>
    rw [topoIterFrom]
    split
    · rename_i hempty
      exact .done (.null hempty)
    · rename_i hempty
      have hfull : (table (slotFrom topoTablesize home c)).isEmpty = false :=
        Bool.eq_false_iff.mpr hempty
      have hpos : d ≠ 0 := fun h0 => by
        rw [h0, Nat.add_zero, slotFull, hfull] at hfree
        cases hfree
      have hrest := ih (d := d - 1) (by omega) (c + 1)
        (by rwa [show c + 1 + (d - 1) = c + d by omega])
      rw [slotFrom_succ]
      split
      · rename_i hsame
        exact .next (.entry hfull hsame) (by rwa [slotFrom_succ])
      · rename_i hother
        exact .skip hfull hother (by rwa [slotFrom_succ])

/-- A table that is not full stops the calls within one round. -/
theorem TopoValid.iterates {topo : Topo} (h : TopoValid topo) (src : NodeId) :
    Iterates topo.table src (topoOffs src) (topoIter topo src) := by
  have hhome := topoOffs_lt src
  obtain ⟨d, hd, hfree⟩ := exists_free hhome
    ((h.count.trans h.entries_le).trans_lt (by decide))
  have hrun := iterates_topoIterFrom src hd 0 (by rwa [Nat.zero_add])
  rwa [slotFrom_zero hhome] at hrun

/-- The entry that was inserted last for a link. -/
def lastInserted (links : List TopoEntry) (src dst : NodeId) : Option TopoEntry :=
  links.reverse.find? fun l => l.src = src ∧ l.dst = dst

theorem lastInserted_concat (links : List TopoEntry) (l : TopoEntry) (src dst : NodeId) :
    lastInserted (links ++ [l]) src dst =
      if l.src = src ∧ l.dst = dst then some l else lastInserted links src dst := by
  rw [lastInserted, List.reverse_concat, List.find?_cons]
  by_cases h : l.src = src ∧ l.dst = dst
  · simp [h]
  · simp [h, lastInserted]

/-- The table holds what was inserted last for each link between two nodes. -/
theorem topoRead_holds {links : List TopoEntry} {topo : Topo} (h : topoRead links = .ok topo)
    (e : TopoEntry) :
    topo.Holds e ↔ e.src ≠ e.dst ∧ lastInserted links e.src e.dst = some e := by
  induction links using List.reverseRecOn generalizing topo with
  | nil =>
    cases h
    refine iff_of_false ?_ (fun hlast => by cases hlast.2)
    rintro ⟨hne, n, rfl⟩
    exact hne rfl
  | append_singleton links l ih =>
    rw [topoRead, List.foldlM_append] at h
    obtain ⟨before, hbefore, hrun⟩ := bind_eq_ok h
    rw [List.foldlM_cons] at hrun
    obtain ⟨after, hins, hrun⟩ := bind_eq_ok hrun
    cases hrun
    rw [(topoRead_valid hbefore).1.holds_insert hins, ih hbefore, lastInserted_concat]
    by_cases hsame : l.src = e.src ∧ l.dst = e.dst
    · rw [if_pos hsame, Option.some_inj]
      constructor
      · rintro (⟨rfl, hne⟩ | ⟨-, hother⟩)
        · exact ⟨hne, rfl⟩
        · exact absurd hsame hother
      · rintro ⟨hne, rfl⟩
        exact Or.inl ⟨rfl, hne⟩
    · rw [if_neg hsame]
      constructor
      · rintro (⟨rfl, -⟩ | ⟨hlast, -⟩)
        · exact absurd ⟨rfl, rfl⟩ hsame
        · exact hlast
      · exact fun hlast => Or.inr ⟨hlast, hsame⟩

/-- Whatever was inserted, iterating over the links of a node ends, and yields for each node that
it has a link to the entry inserted last, once, and no end above the largest. -/
theorem topoIter_exact {links : List TopoEntry} {topo : Topo} (h : topoRead links = .ok topo)
    (src : NodeId) :
    Iterates topo.table src (topoOffs src) (topoIter topo src) ∧
      ((topoIter topo src).map TopoEntry.dst).Nodup ∧
      (∀ e, e ∈ topoIter topo src ↔
        e.src = src ∧ e.dst ≠ src ∧ lastInserted links src e.dst = some e) ∧
      ∀ e ∈ topoIter topo src,
        e.src.toNat ≤ topo.maxId.toNat ∧ e.dst.toNat ≤ topo.maxId.toNat := by
  have hvalid := (topoRead_valid h).1
  refine ⟨hvalid.iterates src, (hvalid.iter src).1, fun e => ?_, fun e he => ?_⟩
  · rw [hvalid.mem_iter, topoRead_holds h e]
    constructor
    · rintro ⟨⟨hne, hlast⟩, rfl⟩
      exact ⟨rfl, hne.symm, hlast⟩
    · rintro ⟨rfl, hne, hlast⟩
      exact ⟨⟨hne.symm, hlast⟩, rfl⟩
  · obtain ⟨hholds, -⟩ := hvalid.mem_iter.mp he
    exact (Topo.link_iff_holds.mpr ⟨e, hholds, rfl, rfl⟩).le_maxId

/-- A link inserted again, with a link of a node to itself between, is iterated over once. -/
theorem topoIter_exact_again :
    ∃ topo, topoRead [{ src := 0, dst := 1, prob := 5 }, { src := 2, dst := 2, prob := 6 },
        { src := 0, dst := 1, prob := 7 }] = .ok topo ∧
      ((topoIter topo 0).map TopoEntry.dst).Nodup ∧
      { src := 0, dst := 1, prob := 7 } ∈ topoIter topo 0 := by
  cases h : topoRead [{ src := 0, dst := 1, prob := 5 }, { src := 2, dst := 2, prob := 6 },
    { src := 0, dst := 1, prob := 7 }] with
  | error e =>
    have hok : (topoRead [{ src := 0, dst := 1, prob := 5 }, { src := 2, dst := 2, prob := 6 },
      { src := 0, dst := 1, prob := 7 }]).isOk = true := by decide +kernel
    rw [h] at hok
    cases hok
  | ok topo =>
    obtain ⟨-, hnodup, hexact, -⟩ := topoIter_exact h 0
    exact ⟨topo, rfl, hnodup, (hexact _).mpr (by decide)⟩

end OldRadio.Second
