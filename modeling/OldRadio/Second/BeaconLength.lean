import OldRadio.Second.NodeEffects

/-!
# The length check of a beacon

A received beacon is accepted when its length less the header is a multiple of
an entry, both taken as unsigned words, and the number of its entries is then
narrowed to an `int`. The check lets a single byte pass, as the subtraction wraps
to a multiple of an entry, and a header without entries, of which the first is
read all the same. What lies between one entry and the range of an `int` is read
within the packet.
-/

namespace OldRadio.Second

/-- The `int nneigh` of `node_receive_beacon`, when its assertion holds. -/
def beaconNneigh (length : UInt64) : Except Abort Int32 :=
  let rest := length - UInt64.ofNat nodeBeaconHeaderSize
  if rest % UInt64.ofNat neighLayout.size ≠ 0 then .error .beaconLength
  else .ok (rest / UInt64.ofNat neighLayout.size).toUInt32.toInt32

/-- The offsets into `packet->data` that `node_receive_beacon` reads: the header, the first
entry, and the entries that its loops over `nneigh` come to. -/
def BeaconReads (nneigh : Int32) (offset : Nat) : Prop :=
  offset < nodeBeaconHeaderSize ∨
    ∃ i : Nat, (i = 0 ∨ (i : Int) < nneigh.toInt) ∧
      nodeBeaconHeaderSize + i * neighLayout.size ≤ offset ∧
      offset < nodeBeaconHeaderSize + (i + 1) * neighLayout.size

/-- The beacon has an entry, its length is that of its entries, and no read leaves it. -/
structure BeaconInside (packet : Packet) (nneigh : Int32) : Prop where
  entry : 1 ≤ nneigh.toInt
  length : (nodeBeaconHeaderSize : Int) + nneigh.toInt * neighLayout.size = packet.data.length
  inside : ∀ offset, BeaconReads nneigh offset → offset < packet.data.length

/-- Entries that make up the length are read within it. -/
theorem BeaconInside.of_entries {packet : Packet} {nneigh : Int32} (hentry : 1 ≤ nneigh.toInt)
    (hlength :
      (nodeBeaconHeaderSize : Int) + nneigh.toInt * neighLayout.size = packet.data.length) :
    BeaconInside packet nneigh := by
  refine ⟨hentry, hlength, fun offset hread => ?_⟩
  rw [neighLayout_size, nodeBeaconHeaderSize] at hlength
  rcases hread with hheader | ⟨i, hi, -, hlast⟩
  · rw [nodeBeaconHeaderSize] at hheader
    omega
  · rw [neighLayout_size, nodeBeaconHeaderSize] at hlast
    have hlt : (i : Int) < nneigh.toInt := hi.elim (fun h => by omega) id
    omega

private theorem toNat_rest {length : Nat} (hpos : 1 ≤ length) (hlt : length < 2 ^ 64) :
    (UInt64.ofNat length - UInt64.ofNat nodeBeaconHeaderSize).toNat =
      if length = 1 then 2 ^ 64 - 1 else length - 2 := by
  rw [UInt64.toNat_sub, UInt64.toNat_ofNat', UInt64.toNat_ofNat', nodeBeaconHeaderSize]
  split <;> omega

/-- The number of entries that an accepted length gives: the narrowed quotient. -/
theorem beaconNneigh_ok {length : Nat} {nneigh : Int32} (hpos : 1 ≤ length)
    (hlt : length < 2 ^ 64) (h : beaconNneigh (UInt64.ofNat length) = .ok nneigh) :
    (length = 1 ∧ nneigh.toInt = 0x11111111) ∨
      (2 ≤ length ∧ (length - 2) % 15 = 0 ∧
        nneigh.toInt = (((length - 2) / 15 : Nat) : Int).bmod (2 ^ 32)) := by
  have hrest := toNat_rest hpos hlt
  rw [beaconNneigh] at h
  split at h
  · cases h
  rename_i hmod
  rw [not_not, ← UInt64.toNat_inj, UInt64.toNat_mod, hrest, neighLayout_size] at hmod
  have hnneigh := congrArg Int32.toInt (Except.ok.inj h)
  rw [toInt_toInt32_toUInt32, UInt64.toNat_div, hrest, neighLayout_size] at hnneigh
  change _ % 15 = 0 at hmod
  change Int.bmod ((_ / 15 : Nat) : Int) _ = _ at hnneigh
  by_cases hone : length = 1
  · rw [if_pos hone] at hnneigh
    exact Or.inl ⟨hone, hnneigh.symm.trans (by decide)⟩
  · rw [if_neg hone] at hmod hnneigh
    exact Or.inr ⟨by omega, hmod, hnneigh.symm⟩

/-- The entries of an accepted beacon lie in its packet exactly when there is room for one and
their number is an `int`. -/
theorem beaconInside_iff {packet : Packet} {nneigh : Int32} (hne : packet.data ≠ [])
    (hlt : packet.data.length < 2 ^ 64)
    (h : beaconNneigh (UInt64.ofNat packet.data.length) = .ok nneigh) :
    BeaconInside packet nneigh ↔
      nodeBeaconHeaderSize + neighLayout.size ≤ packet.data.length ∧
        (packet.data.length - nodeBeaconHeaderSize) / neighLayout.size < 2 ^ 31 := by
  have hpos : 1 ≤ packet.data.length := List.length_pos_of_ne_nil hne
  rw [neighLayout_size, nodeBeaconHeaderSize]
  rcases beaconNneigh_ok hpos hlt h with ⟨hone, hcount⟩ | ⟨htwo, hmod, hcount⟩
  · refine iff_of_false (fun hinside => ?_) fun hlen => by omega
    have hlength := hinside.length
    rw [neighLayout_size, nodeBeaconHeaderSize, hcount, hone] at hlength
    omega
  · rw [Int.bmod_def] at hcount
    refine ⟨fun hinside => ?_, fun hlen => .of_entries ?_ ?_⟩
    · have hentry := hinside.entry
      have hlength := hinside.length
      rw [neighLayout_size, nodeBeaconHeaderSize] at hlength
      split at hcount <;> omega
    · split at hcount <;> omega
    · rw [neighLayout_size, nodeBeaconHeaderSize]
      split at hcount <;> omega

/-- A beacon with its sender's entry alone is such a packet. -/
theorem beaconInside_sender :
    BeaconInside { refcount := 1, data := packetTypeBeacon :: List.replicate 16 0 } 1 :=
  (beaconInside_iff (by decide) (by decide) (by decide +kernel)).mpr (by decide)

/-- A beacon of one byte passes the check and claims entries far beyond it. -/
theorem beaconNneigh_one_byte :
    beaconNneigh (UInt64.ofNat [packetTypeBeacon].length) = .ok 0x11111111 ∧
      ¬ BeaconInside { refcount := 1, data := [packetTypeBeacon] } 0x11111111 := by
  refine ⟨by decide +kernel, fun hinside => ?_⟩
  exact absurd (hinside.inside 2 (Or.inr ⟨0, Or.inl rfl, by decide, by decide⟩)) (by decide)

/-- Where the reads stay inside, the parser of the model takes the same number of entries. -/
theorem beaconCount_of_inside {packet : Packet} {nneigh : Int32}
    (hlt : packet.data.length < 2 ^ 64)
    (h : beaconNneigh (UInt64.ofNat packet.data.length) = .ok nneigh)
    (hinside : BeaconInside packet nneigh) :
    beaconCount packet.data.length = .ok nneigh.toInt.toNat := by
  have hlength := hinside.length
  have hentry := hinside.entry
  rw [neighLayout_size, nodeBeaconHeaderSize] at hlength
  have hmod : ¬ (UInt64.ofNat packet.data.length - UInt64.ofNat nodeBeaconHeaderSize) %
      UInt64.ofNat neighLayout.size ≠ 0 := fun hbad => by
    rw [beaconNneigh, if_pos hbad] at h
    cases h
  rw [beaconCount, if_neg hmod, neighLayout_size, nodeBeaconHeaderSize, if_neg (by omega)]
  congr 1
  omega

end OldRadio.Second
