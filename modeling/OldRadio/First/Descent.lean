import OldRadio.First.BeaconTable

/-!
# Recalculating the own location

`beacon_recalc` lets entries expire and then tries a hundred random steps. A step
is taken if the energy does not rise, so plateaus may be crossed, and the
location that is reached counts only if its energy is lower than at the start.
Whatever is drawn, the energy kept is that of the location kept.
-/

namespace OldRadio.First

open Library

/-- Each coordinate has changed by at most `n`, in the arithmetic of 32-bit integers. -/
def WithinSteps (n : Nat) (old new : VLoc) : Prop :=
  ∀ k, ∃ d : Int, |d| ≤ n ∧ new k = old k + Int32.ofInt d

theorem WithinSteps.refl (n : Nat) (vloc : VLoc) : WithinSteps n vloc vloc := fun _ =>
  ⟨0, by simp, (Int32.add_zero _).symm⟩

/-- One more random step. -/
theorem WithinSteps.step {n : Nat} {old new : VLoc} (h : WithinSteps n old new)
    (draws : Fin vlocDim → Nat) :
    WithinSteps (n + 1) old fun k => new k + Int32.ofNat (draws k % 3) - 1 := by
  intro k
  obtain ⟨d, hd, hk⟩ := h k
  have hmove : Int32.ofNat (draws k % 3) - 1 = Int32.ofInt ((draws k % 3 : Nat) - 1) := by
    rw [Int32.ofInt_sub, Int32.ofInt_eq_ofNat]
    rfl
  refine ⟨d + ((draws k % 3 : Nat) - 1), ?_, ?_⟩
  · rw [abs_le] at hd ⊢
    omega
  · show new k + Int32.ofNat (draws k % 3) - 1 = _
    rw [hk, Int32.ofInt_add, ← hmove, Int32.sub_eq_add_neg, Int32.sub_eq_add_neg, Int32.add_assoc,
      Int32.add_assoc]

/-- Away from the ends of the range the difference is an ordinary one. -/
theorem WithinSteps.abs_sub_le {n : Nat} {old new : VLoc} (h : WithinSteps n old new)
    {k : Fin vlocDim} (hlow : -2 ^ 31 + n ≤ (old k).toInt) (hhigh : (old k).toInt + n < 2 ^ 31) :
    |(new k).toInt - (old k).toInt| ≤ n := by
  obtain ⟨d, hd, hk⟩ := h k
  have hsum : new k = Int32.ofInt ((old k).toInt + d) := by
    rw [hk, Int32.ofInt_add, Int32.ofInt_toInt]
  rw [abs_le] at hd
  rw [hsum, Int32.toInt_ofInt_of_le (by omega) (by omega), add_sub_cancel_left, abs_le]
  exact hd

/-- After any number of tries the energy kept is that of the location kept, and no higher than at
the start. -/
theorem foldl_descendStep (energy : VLoc → UInt64) (tape : Nat → Fin randRange) (vloc : VLoc)
    (n : Nat) : ∃ found, (List.range n).foldl (descendStep energy tape) (vloc, energy vloc) =
      (found, energy found) ∧ energy found ≤ energy vloc ∧ WithinSteps n vloc found := by
  induction n with
  | zero => exact ⟨vloc, rfl, UInt64.le_refl _, .refl 0 vloc⟩
  | succ n ih =>
    obtain ⟨found, heq, hle, hwithin⟩ := ih
    have hstep := hwithin.step fun k => (tape (vlocDim * n + k)).val
    rw [List.range_succ, List.foldl_append, heq, List.foldl_cons, List.foldl_nil, descendStep]
    dsimp only
    split
    · rename_i hlower
      exact ⟨_, rfl, UInt64.le_trans hlower hle, hstep⟩
    · refine ⟨found, rfl, hle, fun k => ?_⟩
      obtain ⟨d, hd, hk⟩ := hwithin k
      exact ⟨d, hd.trans (by omega), hk⟩

theorem descend_spec (energy : VLoc → UInt64) (tape : Nat → Fin randRange) (vloc : VLoc) :
    ∃ found, descend energy tape vloc = (found, energy found) ∧ WithinSteps 100 vloc found := by
  obtain ⟨found, heq, -, hwithin⟩ := foldl_descendStep energy tape vloc 100
  exact ⟨found, heq, hwithin⟩

/-- `beacon_recalc` first marks dead exactly the other entries that are older than `BEACON_TIMEOUT`;
then it leaves the own location as it is, or moves each coordinate by at most 100 to where the
energy against the live ones is lower. -/
theorem beaconRecalc_spec (energy : List NeighbourT → VLoc → UInt64) {s : Beacons} (now : Int)
    (tape : Nat → Fin randRange) {self : NeighbourT} {others : List NeighbourT}
    (h : s.neighbours = self :: others) :
    ∃ vloc others', (beaconRecalc energy s now tape).neighbours = { self with vloc } :: others' ∧
      (beaconRecalc energy s now tape).identifier = s.identifier ∧
      others' = others.map (fun n =>
        if beaconTimeout < now - n.stamp then { n with state := 0 } else n) ∧
      (vloc = self.vloc ∨
        (∀ k, ∃ d : Int, |d| ≤ 100 ∧ vloc k = self.vloc k + Int32.ofInt d) ∧
          (∀ k, -2 ^ 31 + 100 ≤ (self.vloc k).toInt → (self.vloc k).toInt + 100 < 2 ^ 31 →
            |(vloc k).toInt - (self.vloc k).toInt| ≤ 100) ∧
          energy (others'.filter fun n => n.state ≠ 0) vloc <
            energy (others'.filter fun n => n.state ≠ 0) self.vloc) := by
  have hexpired : others.map (expire (now - beaconTimeout)) = others.map fun n =>
      if beaconTimeout < now - n.stamp then { n with state := 0 } else n := by
    refine List.map_congr_left fun n _ => ?_
    have hiff : n.stamp < now - beaconTimeout ↔ beaconTimeout < now - n.stamp := by omega
    rw [expire, if_congr hiff rfl rfl]
  have htable : (beaconRecalc energy s now tape).neighbours =
      recalcTable energy now tape (self :: others) := congrArg (recalcTable energy now tape) h
  obtain ⟨found, hfound, hwithin⟩ := descend_spec
    (energy (survivors (others.map (expire (now - beaconTimeout))))) tape self.vloc
  rw [recalcTable, hfound] at htable
  dsimp only at htable
  split at htable
  · rename_i hlower
    exact ⟨found, _, htable, rfl, hexpired, Or.inr
      ⟨hwithin, fun k hlow hhigh => hwithin.abs_sub_le hlow hhigh, hlower⟩⟩
  · exact ⟨self.vloc, _, htable, rfl, hexpired, Or.inl rfl⟩

/-- A node with an entry that was heard of at 0 and one that was heard of at 50. -/
def beaconsFading : Beacons where
  identifier := 1
  neighbours := [⟨1, 1, 0, fun _ => -5, 0⟩, ⟨1, 2, 1, fun _ => 4, 0⟩, ⟨1, 3, 1, fun _ => 9, 50⟩]
  length_le := by decide

/-- At 100 the first of them is marked dead. If the energy is lower where a live entry is, then the
node stays or moves to the other one. -/
theorem beaconRecalc_spec_fading : ∃ vloc : VLoc,
    (beaconRecalc (fun live v => if v ∈ live.map NeighbourT.vloc then 0 else 1) beaconsFading
      100 zeroTape).neighbours =
        [⟨1, 1, 0, vloc, 0⟩, ⟨0, 2, 1, fun _ => 4, 0⟩, ⟨1, 3, 1, fun _ => 9, 50⟩] ∧
      ((vloc = fun _ => -5) ∨ vloc = fun _ => 9) := by
  obtain ⟨vloc, others, htable, -, hothers, hmove⟩ := beaconRecalc_spec
    (fun live v => if v ∈ live.map NeighbourT.vloc then 0 else 1) (s := beaconsFading) 100
    zeroTape rfl
  have hdead : others = [⟨0, 2, 1, fun _ => 4, 0⟩, ⟨1, 3, 1, fun _ => 9, 50⟩] := hothers
  subst hdead
  refine ⟨vloc, htable, hmove.imp_right fun ⟨_, _, hlower⟩ => ?_⟩
  by_contra hne
  have hnotMem : vloc ∉ [(fun _ => 9 : VLoc)] := fun h => hne (List.mem_singleton.mp h)
  rw [if_neg] at hlower
  · exact absurd hlower (by decide)
  · exact hnotMem

end OldRadio.First
