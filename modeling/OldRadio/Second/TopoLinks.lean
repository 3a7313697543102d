import OldRadio.Library.Probing
import OldRadio.Second.Topo

/-!
# The table of links is a set of links

Whatever is inserted, every slot in use is found by probing from where the links
of its node start, and no two slots hold the same link. So iterating over the
links of a node yields each of its links once, and the links of a topology are
those of its file.
-/

namespace OldRadio.Second

open Library

/-- Whether a slot is in use. -/
def slotFull (table : Nat → TopoEntry) (n : Nat) : Bool := !(table n).isEmpty

/-- What every insertion keeps. -/
structure TopoValid (topo : Topo) : Prop where
  /-- Slots are in the table. -/
  lt : ∀ n, slotFull topo.table n = true → n < topoTablesize
  /-- Slots in use are counted. -/
  count : ((Finset.range topoTablesize).filter fun n => slotFull topo.table n = true).card ≤
    topo.entries
  /-- The count is bounded. -/
  entries_le : topo.entries ≤ topoMaxentries
  /-- A slot in use is found from where its node's links start. -/
  found : ∀ n, slotFull topo.table n = true →
    Found (slotFull topo.table) topoTablesize (topoOffs (topo.table n).src) n
  /-- No link is in two slots. -/
  unique : ∀ m n, slotFull topo.table m = true → slotFull topo.table n = true →
    (topo.table m).src = (topo.table n).src → (topo.table m).dst = (topo.table n).dst → m = n

theorem topoOffs_lt (src : NodeId) : topoOffs src < topoTablesize :=
  Nat.mod_lt _ (by decide)

theorem slotFull_iff {table : Nat → TopoEntry} {n : Nat} :
    slotFull table n = true ↔ (table n).src ≠ (table n).dst := by
  simp [slotFull, TopoEntry.isEmpty]

private theorem topoNew_free (n : Nat) : ¬ slotFull topoNew.table n = true := fun h =>
  slotFull_iff.mp h rfl

theorem topoNew_valid : TopoValid topoNew where
  lt n h := absurd h (topoNew_free n)
  count := by
    rw [Finset.filter_false_of_mem fun n _ => topoNew_free n, Finset.card_empty]
    exact Nat.zero_le _
  entries_le := Nat.zero_le _
  found n h := absurd h (topoNew_free n)
  unique m _ h := absurd h (topoNew_free m)

/-- The loop of `topo_insert` passes slots in use that hold other links, and stops at a free one. -/
theorem topoSlot_false {table : Nat → TopoEntry} {entry : TopoEntry} {home fuel d m : Nat}
    (h : topoSlot table entry fuel (slotFrom topoTablesize home d) = (m, false)) :
    ∃ k ≤ fuel, m = slotFrom topoTablesize home (d + k) ∧
      (∀ c, d ≤ c → c < d + k → slotFull table (slotFrom topoTablesize home c) = true ∧
        ¬ ((table (slotFrom topoTablesize home c)).src = entry.src ∧
          (table (slotFrom topoTablesize home c)).dst = entry.dst)) ∧
      (k < fuel → slotFull table m = false) := by
  induction fuel generalizing d with
  | zero =>
    cases h
    exact ⟨0, le_rfl, rfl, fun c hc hlt => by omega, fun hlt => by omega⟩
  | succ fuel ih =>
    rw [topoSlot] at h
    split at h
    · rename_i hempty
      cases h
      refine ⟨0, Nat.zero_le _, rfl, fun c hc hlt => by omega, fun _ => ?_⟩
      rw [slotFull, hempty, Bool.not_true]
    · rename_i hfull
      split at h
      · cases h
      · rename_i hother
        rw [slotFrom_succ] at h
        obtain ⟨k, hk, hm, hall, hfree⟩ := ih h
        refine ⟨k + 1, Nat.succ_le_succ hk, ?_, fun c hc hlt => ?_, fun hlt => ?_⟩
        · rw [hm, Nat.add_assoc, Nat.add_comm 1 k]
        · rcases Nat.eq_or_lt_of_le hc with rfl | hc
          · exact ⟨by rw [slotFull, Bool.eq_false_iff.mpr hfull, Bool.not_false], hother⟩
          · exact hall c hc (by omega)
        · exact hfree (Nat.lt_of_succ_lt_succ hlt)

/-- A new link goes into the first free slot from where its node's links start, and no slot holds it
yet. -/
theorem TopoValid.free {topo : Topo} (h : TopoValid topo) {entry : TopoEntry} {m : Nat}
    (hslot : topoSlot topo.table entry topoTablesize (topoOffs entry.src) = (m, false)) :
    ∃ k < topoTablesize, m = slotFrom topoTablesize (topoOffs entry.src) k ∧
      (∀ c < k, slotFull topo.table (slotFrom topoTablesize (topoOffs entry.src) c) = true) ∧
      slotFull topo.table m = false ∧
      ∀ n, slotFull topo.table n = true →
        ¬ ((topo.table n).src = entry.src ∧ (topo.table n).dst = entry.dst) := by
  have hhome := topoOffs_lt entry.src
  rw [← slotFrom_zero hhome] at hslot
  obtain ⟨k, hk, hm, hall, hfree⟩ := topoSlot_false hslot
  rw [Nat.zero_add] at hm hall
  have hlt : k < topoTablesize := by
    have hcard : ((Finset.range topoTablesize).filter
        fun n => slotFull topo.table n = true).card < topoTablesize :=
      (h.count.trans h.entries_le).trans_lt (by decide)
    obtain ⟨d, hd, hfree'⟩ := exists_free hhome hcard
    by_contra hge
    have hd' := (hall d (Nat.zero_le d) (by omega)).1
    rw [hfree'] at hd'
    cases hd'
  refine ⟨k, hlt, hm, fun c hc => (hall c (Nat.zero_le c) hc).1, hfree hlt, ?_⟩
  rintro n hn ⟨hsrc, hdst⟩
  obtain ⟨d, hd, hdn, hway⟩ := h.found n hn
  rw [hsrc] at hdn hway
  by_cases hdk : d < k
  · refine (hall d (Nat.zero_le d) hdk).2 ?_
    rw [hdn]
    exact ⟨hsrc, hdst⟩
  · have hmk := hway k (Nat.le_of_not_lt hdk)
    rw [← hm, hfree hlt] at hmk
    cases hmk

/-- An insertion writes one slot: one that holds the link already, or a new one. -/
theorem topoInsert_cases {topo topo' : Topo} {entry : TopoEntry}
    (h : topoInsert topo entry = .ok topo') :
    topo.entries < topoMaxentries ∧ ∃ m, topo'.table = Function.update topo.table m entry ∧
      (topoSlot topo.table entry topoTablesize (topoOffs entry.src) = (m, true) ∧
          topo'.entries = topo.entries ∨
        topoSlot topo.table entry topoTablesize (topoOffs entry.src) = (m, false) ∧
          topo'.entries = topo.entries + 1) := by
  unfold topoInsert at h
  split at h
  · rename_i hroom
    refine ⟨hroom, ?_⟩
    split at h
    · rename_i m hslot
      cases h
      exact ⟨m, rfl, Or.inl ⟨hslot, rfl⟩⟩
    · rename_i m hslot
      cases h
      exact ⟨m, rfl, Or.inr ⟨hslot, rfl⟩⟩
  · cases h

/-- An entry between two nodes that is stored in the table. -/
def Topo.Holds (topo : Topo) (entry : TopoEntry) : Prop :=
  entry.src ≠ entry.dst ∧ ∃ n, topo.table n = entry

/-- A link is one that some entry is stored for. -/
theorem Topo.link_iff_holds {topo : Topo} {a b : NodeId} :
    topo.Link a b ↔ ∃ e, topo.Holds e ∧ e.src = a ∧ e.dst = b := by
  constructor
  · rintro ⟨hne, n, rfl, rfl⟩
    exact ⟨topo.table n, ⟨hne, n, rfl⟩, rfl, rfl⟩
  · rintro ⟨_, ⟨hne, n, rfl⟩, rfl, rfl⟩
    exact ⟨hne, n, rfl, rfl⟩

section Insert

variable {topo topo' : Topo} {entry : TopoEntry} {m : Nat}

/-- Writing a link over itself changes no end of a link. -/
theorem ends_of_true
    (hslot : topoSlot topo.table entry topoTablesize (topoOffs entry.src) = (m, true)) (n : Nat) :
    (Function.update topo.table m entry n).src = (topo.table n).src ∧
      (Function.update topo.table m entry n).dst = (topo.table n).dst := by
  obtain ⟨-, hsrc, hdst⟩ := topoSlot_true hslot
  rcases eq_or_ne n m with rfl | hne
  · rw [Function.update_self]
    exact ⟨hsrc.symm, hdst.symm⟩
  · rw [Function.update_of_ne hne]
    exact ⟨rfl, rfl⟩

/-- A slot in use after a new link: the slot of the link, or one in use before. -/
theorem slotFull_update (hfree : slotFull topo.table m = false) {n : Nat} :
    slotFull (Function.update topo.table m entry) n = true ↔
      n = m ∧ entry.src ≠ entry.dst ∨ n ≠ m ∧ slotFull topo.table n = true := by
  rcases eq_or_ne n m with rfl | hne
  · rw [slotFull_iff, Function.update_self]
    simp
  · rw [slotFull, Function.update_of_ne hne]
    simp [hne, slotFull]

/-- Writing a link over itself keeps the table valid. -/
theorem TopoValid.overwritten (h : TopoValid topo)
    (hslot : topoSlot topo.table entry topoTablesize (topoOffs entry.src) = (m, true))
    (htable : topo'.table = Function.update topo.table m entry)
    (hentries : topo'.entries = topo.entries) : TopoValid topo' := by
  have hends : ∀ n, (topo'.table n).src = (topo.table n).src ∧
      (topo'.table n).dst = (topo.table n).dst := fun n => by
    rw [htable]
    exact ends_of_true hslot n
  have hfull : slotFull topo'.table = slotFull topo.table := by
    funext n
    rw [slotFull, slotFull, TopoEntry.isEmpty, TopoEntry.isEmpty, (hends n).1, (hends n).2]
  refine ⟨?_, ?_, ?_, ?_, ?_⟩
  · rw [hfull]
    exact h.lt
  · rw [hfull, hentries]
    exact h.count
  · rw [hentries]
    exact h.entries_le
  · intro n hn
    rw [hfull] at hn ⊢
    rw [(hends n).1]
    exact h.found n hn
  · intro i j hi hj hsrc hdst
    rw [hfull] at hi hj
    rw [(hends i).1, (hends j).1] at hsrc
    rw [(hends i).2, (hends j).2] at hdst
    exact h.unique i j hi hj hsrc hdst

/-- Writing a new link into the slot that is found for it keeps the table valid. -/
theorem TopoValid.added (h : TopoValid topo) (hroom : topo.entries < topoMaxentries)
    (hslot : topoSlot topo.table entry topoTablesize (topoOffs entry.src) = (m, false))
    (htable : topo'.table = Function.update topo.table m entry)
    (hentries : topo'.entries = topo.entries + 1) : TopoValid topo' := by
  obtain ⟨k, hk, hm, hway, hfree, hnew⟩ := h.free hslot
  have hfull : ∀ n, slotFull topo'.table n = true ↔
      n = m ∧ entry.src ≠ entry.dst ∨ n ≠ m ∧ slotFull topo.table n = true := fun n => by
    rw [htable]
    exact slotFull_update hfree
  have hmono : ∀ n, slotFull topo.table n = true → slotFull topo'.table n = true := fun n hn => by
    refine (hfull n).mpr (Or.inr ⟨fun heq => ?_, hn⟩)
    rw [heq, hfree] at hn
    cases hn
  have hat : topo'.table m = entry := by rw [htable, Function.update_self]
  have hother : ∀ n, n ≠ m → topo'.table n = topo.table n := fun n hne => by
    rw [htable, Function.update_of_ne hne]
  refine ⟨?_, ?_, ?_, ?_, ?_⟩
  · intro n hn
    rcases (hfull n).mp hn with ⟨rfl, -⟩ | ⟨-, hold⟩
    · rw [hm]
      exact slotFrom_lt (by decide) k
    · exact h.lt n hold
  · have hsub : ((Finset.range topoTablesize).filter fun n => slotFull topo'.table n = true) ⊆
        insert m ((Finset.range topoTablesize).filter
          fun n => slotFull topo.table n = true) := by
      intro n hn
      obtain ⟨hrange, hn⟩ := Finset.mem_filter.mp hn
      rcases (hfull n).mp hn with ⟨rfl, -⟩ | ⟨-, hold⟩
      · exact Finset.mem_insert_self _ _
      · exact Finset.mem_insert_of_mem (Finset.mem_filter.mpr ⟨hrange, hold⟩)
    rw [hentries]
    exact (Finset.card_le_card hsub).trans
      ((Finset.card_insert_le _ _).trans (Nat.succ_le_succ h.count))
  · rw [hentries]
    exact hroom
  · intro n hn
    rcases (hfull n).mp hn with ⟨rfl, -⟩ | ⟨hne, hold⟩
    · rw [hat]
      refine ⟨k, hk, hm.symm, fun c hc => ?_⟩
      rcases Nat.lt_or_eq_of_le hc with hc | rfl
      · exact hmono _ (hway c hc)
      · rw [← hm]
        exact hn
    · rw [hother n hne]
      exact (h.found n hold).mono hmono
  · intro i j hi hj hsrc hdst
    rcases (hfull i).mp hi with ⟨rfl, -⟩ | ⟨hnei, hi⟩
    · rcases (hfull j).mp hj with ⟨rfl, -⟩ | ⟨hnej, hj⟩
      · rfl
      · rw [hat, hother j hnej] at hsrc hdst
        exact absurd ⟨hsrc.symm, hdst.symm⟩ (hnew j hj)
    · rw [hother i hnei] at hsrc hdst
      rcases (hfull j).mp hj with ⟨rfl, -⟩ | ⟨hnej, hj⟩
      · rw [hat] at hsrc hdst
        exact absurd ⟨hsrc, hdst⟩ (hnew i hi)
      · rw [hother j hnej] at hsrc hdst
        exact h.unique i j hi hj hsrc hdst

/-- Insertions keep the table valid. -/
theorem TopoValid.inserted (h : TopoValid topo) (hins : topoInsert topo entry = .ok topo') :
    TopoValid topo' := by
  obtain ⟨hroom, m, htable, ⟨hslot, hentries⟩ | ⟨hslot, hentries⟩⟩ := topoInsert_cases hins
  · exact h.overwritten hslot htable hentries
  · exact h.added hroom hslot htable hentries

/-- An insertion stores its entry, unless it leads a node to itself, in place of what was stored
for the same link. -/
theorem TopoValid.holds_insert (h : TopoValid topo) (hins : topoInsert topo entry = .ok topo')
    {e : TopoEntry} :
    topo'.Holds e ↔ e = entry ∧ entry.src ≠ entry.dst ∨
      topo.Holds e ∧ ¬ (entry.src = e.src ∧ entry.dst = e.dst) := by
  obtain ⟨-, m, htable, hslot⟩ := topoInsert_cases hins
  -- The slot that is written holds the link of the entry or none, and no other slot holds it.
  have hwritten : ∀ n, slotFull topo.table n = true →
      ((topo.table n).src = entry.src ∧ (topo.table n).dst = entry.dst ↔ n = m) := by
    intro n hn
    rcases hslot with ⟨hslot, -⟩ | ⟨hslot, -⟩
    · obtain ⟨hempty, hsrc, hdst⟩ := topoSlot_true hslot
      have hm : slotFull topo.table m = true := by rw [slotFull, hempty, Bool.not_false]
      refine ⟨fun hsame => ?_, ?_⟩
      · exact h.unique n m hn hm (hsame.1.trans hsrc.symm) (hsame.2.trans hdst.symm)
      · rintro rfl
        exact ⟨hsrc, hdst⟩
    · obtain ⟨-, -, -, -, hfree, hnew⟩ := h.free hslot
      refine iff_of_false (hnew n hn) ?_
      rintro rfl
      rw [hfree] at hn
      cases hn
  rw [Topo.Holds, Topo.Holds, htable]
  constructor
  · rintro ⟨hne, n, hn⟩
    rcases eq_or_ne n m with rfl | hnm
    · rw [Function.update_self] at hn
      subst hn
      exact Or.inl ⟨rfl, hne⟩
    · rw [Function.update_of_ne hnm] at hn
      subst hn
      refine Or.inr ⟨⟨hne, n, rfl⟩, fun hsame => hnm ?_⟩
      exact (hwritten n (slotFull_iff.mpr hne)).mp ⟨hsame.1.symm, hsame.2.symm⟩
  · rintro (⟨rfl, hne⟩ | ⟨⟨hne, n, rfl⟩, hother⟩)
    · exact ⟨hne, m, Function.update_self ..⟩
    · refine ⟨hne, n, Function.update_of_ne (fun hnm => hother ?_) ..⟩
      obtain ⟨hsrc, hdst⟩ := (hwritten n (slotFull_iff.mpr hne)).mpr hnm
      exact ⟨hsrc.symm, hdst.symm⟩

/-- An insertion adds the link of its entry, unless it leads a node to itself. -/
theorem TopoValid.link_insert (h : TopoValid topo) (hins : topoInsert topo entry = .ok topo')
    {a b : NodeId} :
    topo'.Link a b ↔ topo.Link a b ∨ a ≠ b ∧ entry.src = a ∧ entry.dst = b := by
  rw [Topo.link_iff_holds, Topo.link_iff_holds]
  simp only [h.holds_insert hins]
  constructor
  · rintro ⟨e, ⟨rfl, hne⟩ | ⟨hold, -⟩, rfl, rfl⟩
    · exact Or.inr ⟨hne, rfl, rfl⟩
    · exact Or.inl ⟨e, hold, rfl, rfl⟩
  · rintro (⟨e, hold, rfl, rfl⟩ | ⟨hne, rfl, rfl⟩)
    · by_cases hsame : entry.src = e.src ∧ entry.dst = e.dst
      · exact ⟨entry, Or.inl ⟨rfl, hsame.1 ▸ hsame.2 ▸ hold.1⟩, hsame⟩
      · exact ⟨e, Or.inr ⟨hold, hsame⟩, rfl, rfl⟩
    · exact ⟨entry, Or.inl ⟨rfl, hne⟩, rfl, rfl⟩

end Insert

/-- The table read from a file is valid, and its links are those of the file between two nodes. -/
theorem topoRead_valid {links : List TopoEntry} {topo : Topo} (h : topoRead links = .ok topo) :
    TopoValid topo ∧
      ∀ a b, topo.Link a b ↔ a ≠ b ∧ ∃ l ∈ links, l.src = a ∧ l.dst = b := by
  have hfold : ∀ (links : List TopoEntry) (topo₀ : Topo), TopoValid topo₀ →
      links.foldlM topoInsert topo₀ = .ok topo → TopoValid topo ∧
        ∀ a b, topo.Link a b ↔
          topo₀.Link a b ∨ a ≠ b ∧ ∃ l ∈ links, l.src = a ∧ l.dst = b := by
    intro links
    induction links with
    | nil =>
      intro topo₀ h₀ hrun
      cases hrun
      exact ⟨h₀, fun a b => by simp⟩
    | cons l links ih =>
      intro topo₀ h₀ hrun
      rw [List.foldlM_cons] at hrun
      obtain ⟨topo₁, hins, hrun⟩ := bind_eq_ok hrun
      obtain ⟨hvalid, hlinks⟩ := ih topo₁ (h₀.inserted hins) hrun
      refine ⟨hvalid, fun a b => ?_⟩
      rw [hlinks a b, h₀.link_insert hins, or_assoc, ← and_or_left]
      simp [eq_comm]
  obtain ⟨hvalid, hlinks⟩ := hfold links topoNew topoNew_valid h
  refine ⟨hvalid, fun a b => ?_⟩
  rw [hlinks a b]
  refine or_iff_right ?_
  rintro ⟨hne, n, hsrc, hdst⟩
  exact hne (hsrc.symm.trans hdst)

/-! ## Iteration -/

theorem topoIterFrom_eq (table : Nat → TopoEntry) (src : NodeId) (fuel offs : Nat) :
    topoIterFrom table src fuel offs =
      ((probe (slotFull table) topoTablesize fuel offs).filter
        fun n => (table n).src = src).map table := by
  induction fuel generalizing offs with
  | zero => rfl
  | succ fuel ih =>
    rw [topoIterFrom, probe]
    by_cases hempty : (table offs).isEmpty = true
    · have hfull : ¬ slotFull table offs = true := by simp [slotFull, hempty]
      rw [if_pos hempty, if_neg hfull]
      rfl
    · have hfull : slotFull table offs = true := by simp [slotFull, hempty]
      rw [if_neg hempty, if_pos hfull]
      by_cases hsrc : (table offs).src = src
      · rw [if_pos hsrc, List.filter_cons_of_pos (by simpa using hsrc), List.map_cons, ih]
      · rw [if_neg hsrc, List.filter_cons_of_neg (by simpa using hsrc), ih]

/-- The slots that iterating over the links of a node yields, each once. -/
theorem TopoValid.slots {topo : Topo} (h : TopoValid topo) (src : NodeId) :
    ((probe (slotFull topo.table) topoTablesize topoTablesize (topoOffs src)).filter
        fun n => (topo.table n).src = src).Nodup ∧
      ∀ n, n ∈ (probe (slotFull topo.table) topoTablesize topoTablesize (topoOffs src)).filter
        (fun n => (topo.table n).src = src) ↔
          slotFull topo.table n = true ∧ (topo.table n).src = src := by
  obtain ⟨hnodup, hmem⟩ := probe_round (slotFull topo.table) (topoOffs_lt src)
  refine ⟨hnodup.filter _, fun n => ?_⟩
  rw [List.mem_filter, hmem, decide_eq_true_iff]
  refine and_congr_left fun hsrc => ⟨?_, fun hn => hsrc ▸ h.found n hn⟩
  rintro ⟨d, -, rfl, hway⟩
  exact hway d le_rfl

/-- Iterating over the links of a node yields the entries that are stored for it. -/
theorem TopoValid.mem_iter {topo : Topo} (h : TopoValid topo) {src : NodeId} {e : TopoEntry} :
    e ∈ topoIter topo src ↔ topo.Holds e ∧ e.src = src := by
  rw [topoIter, topoIterFrom_eq, List.mem_map]
  constructor
  · rintro ⟨n, hn, rfl⟩
    obtain ⟨hfull, hsrc⟩ := ((h.slots src).2 n).mp hn
    exact ⟨⟨slotFull_iff.mp hfull, n, rfl⟩, hsrc⟩
  · rintro ⟨⟨hne, n, rfl⟩, hsrc⟩
    exact ⟨n, ((h.slots src).2 n).mpr ⟨slotFull_iff.mpr hne, hsrc⟩, rfl⟩

/-- Iterating over the links of a node yields each of its links once. -/
theorem TopoValid.iter {topo : Topo} (h : TopoValid topo) (src : NodeId) :
    ((topoIter topo src).map TopoEntry.dst).Nodup ∧
      ∀ dst, dst ∈ (topoIter topo src).map TopoEntry.dst ↔ topo.Link src dst := by
  constructor
  · obtain ⟨hnodup, hslots⟩ := h.slots src
    rw [topoIter, topoIterFrom_eq, List.map_map]
    refine hnodup.map_on fun i hi j hj hdst => ?_
    obtain ⟨hfulli, hsrci⟩ := (hslots i).mp hi
    obtain ⟨hfullj, hsrcj⟩ := (hslots j).mp hj
    exact h.unique i j hfulli hfullj (hsrci.trans hsrcj.symm) hdst
  · intro dst
    rw [List.mem_map, Topo.link_iff_holds]
    simp only [h.mem_iter, and_assoc]

end OldRadio.Second
