import Mathlib.Data.Finset.Card
import Mathlib.Data.List.Range
import Mathlib.Data.Nat.ModEq

/-!
# Linear probing

A table of a number of slots, some of them full. What belongs to a home slot is
looked for from there, slot after slot and around the end, up to the first slot
that is free. A slot is found from a home when every slot on the way is full; no
free slot is passed, so filling one does not hide what was found before.
-/

namespace OldRadio.Library

/-- The slot `d` steps from `home`. -/
def slotFrom (size home d : Nat) : Nat := (home + d) % size

section Slots

variable {size home : Nat}

theorem slotFrom_lt (hsize : 0 < size) (d : Nat) : slotFrom size home d < size :=
  Nat.mod_lt _ hsize

theorem slotFrom_zero (h : home < size) : slotFrom size home 0 = home := Nat.mod_eq_of_lt h

theorem slotFrom_succ (d : Nat) :
    (slotFrom size home d + 1) % size = slotFrom size home (d + 1) := by
  rw [slotFrom, slotFrom, Nat.mod_add_mod, Nat.add_assoc]

/-- Steps within one round lead to different slots. -/
theorem slotFrom_inj {c d : Nat} (hc : c < size) (hd : d < size)
    (h : slotFrom size home c = slotFrom size home d) : c = d :=
  (Nat.ModEq.add_left_cancel' home h).eq_of_lt_of_lt hc hd

/-- One round leads to every slot. -/
theorem exists_slotFrom {m : Nat} (hm : m < size) (hhome : home < size) :
    ∃ d < size, slotFrom size home d = m := by
  rcases Nat.lt_or_ge m home with h | h
  · refine ⟨size - home + m, by omega, ?_⟩
    rw [slotFrom, show home + (size - home + m) = m + size by omega, Nat.add_mod_right,
      Nat.mod_eq_of_lt hm]
  · refine ⟨m - home, by omega, ?_⟩
    rw [slotFrom, Nat.add_sub_cancel' h, Nat.mod_eq_of_lt hm]

end Slots

section Found

variable {size home : Nat} {full full' : Nat → Bool}

/-- Slot `m` is found from `home`: every slot on the way there is full, and so is `m`. -/
def Found (full : Nat → Bool) (size home m : Nat) : Prop :=
  ∃ d < size, slotFrom size home d = m ∧ ∀ c ≤ d, full (slotFrom size home c) = true

theorem Found.mono {m : Nat} (h : Found full size home m)
    (hmono : ∀ i, full i = true → full' i = true) : Found full' size home m := by
  obtain ⟨d, hd, hm, hfull⟩ := h
  exact ⟨d, hd, hm, fun c hc => hmono _ (hfull c hc)⟩

/-- A table with fewer full slots than slots has a free slot in every round. -/
theorem exists_free (hhome : home < size)
    (h : ((Finset.range size).filter fun i => full i = true).card < size) :
    ∃ d < size, full (slotFrom size home d) = false := by
  by_contra hnone
  push Not at hnone
  have hall : (Finset.range size).filter (fun i => full i = true) = Finset.range size := by
    rw [Finset.filter_eq_self]
    intro m hm
    obtain ⟨d, hd, rfl⟩ := exists_slotFrom (Finset.mem_range.mp hm) hhome
    exact Bool.eq_true_of_not_eq_false (hnone d hd)
  rw [hall, Finset.card_range] at h
  exact Nat.lt_irrefl _ h

/-- The slots of at most `fuel` steps before the first free one. -/
def probe (full : Nat → Bool) (size : Nat) : Nat → Nat → List Nat
  | 0, _ => []
  | fuel + 1, i => if full i then i :: probe full size fuel ((i + 1) % size) else []

/-- Probing goes through the full slots in order and stops at a free one. -/
theorem probe_eq (full : Nat → Bool) (size home fuel d : Nat) : ∃ k ≤ fuel,
    probe full size fuel (slotFrom size home d) = (List.range' d k).map (slotFrom size home) ∧
      (∀ c, d ≤ c → c < d + k → full (slotFrom size home c) = true) ∧
      (k < fuel → full (slotFrom size home (d + k)) = false) := by
  induction fuel generalizing d with
  | zero => exact ⟨0, le_rfl, rfl, fun c hc hlt => by omega, fun h => by omega⟩
  | succ fuel ih =>
    rw [probe]
    split
    · rename_i hfull
      obtain ⟨k, hk, hprobe, hall, hfree⟩ := ih (d + 1)
      refine ⟨k + 1, Nat.succ_le_succ hk, ?_, fun c hc hlt => ?_, fun hlt => ?_⟩
      · rw [slotFrom_succ, hprobe, List.range'_succ, List.map_cons]
      · rcases Nat.eq_or_lt_of_le hc with rfl | hc
        · exact hfull
        · exact hall c hc (by omega)
      · rw [Nat.add_comm k 1, ← Nat.add_assoc]
        exact hfree (Nat.lt_of_succ_lt_succ hlt)
    · rename_i hfree
      exact ⟨0, Nat.zero_le _, rfl, fun c hc hlt => by omega,
        fun _ => Bool.eq_false_iff.mpr hfree⟩

/-- A round of probing goes through the slots that are found, each once. -/
theorem probe_round (full : Nat → Bool) (hhome : home < size) :
    (probe full size size home).Nodup ∧
      ∀ m, m ∈ probe full size size home ↔ Found full size home m := by
  obtain ⟨k, hk, hprobe, hall, hfree⟩ := probe_eq full size home size 0
  rw [slotFrom_zero hhome] at hprobe
  rw [Nat.zero_add] at hall hfree
  rw [hprobe]
  refine ⟨?_, fun m => ?_⟩
  · refine List.Nodup.map_on (fun c hc d hd => slotFrom_inj ?_ ?_) List.nodup_range'
    · have := (List.mem_range'_1.mp hc).2
      omega
    · have := (List.mem_range'_1.mp hd).2
      omega
  · rw [List.mem_map]
    constructor
    · rintro ⟨d, hd, rfl⟩
      have hdk := (List.mem_range'_1.mp hd).2
      exact ⟨d, by omega, rfl, fun c hc => hall c (Nat.zero_le c) (by omega)⟩
    · rintro ⟨d, hd, rfl, hfull⟩
      refine ⟨d, List.mem_range'_1.mpr ⟨Nat.zero_le d, ?_⟩, rfl⟩
      by_contra hge
      have hkd : k ≤ d := by omega
      have := hfull k hkd
      rw [hfree (by omega)] at this
      cases this

end Found

end OldRadio.Library
