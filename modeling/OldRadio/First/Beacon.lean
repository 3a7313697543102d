import Mathlib.Data.Fintype.Pi
import OldRadio.Library.Keyed
import OldRadio.Library.Packed

/-!
# Beacons and neighbours of the first version

`beacon.c` of `radio/serial`. A node keeps a table of at most `MAXNEIGH` entries:
itself, and behind it every node it has heard of, in the order it first did. A
beacon is the table as packed records. What stands in the table beyond `Nneigh`
is never read, so the table is the list of its entries in use.
-/

namespace OldRadio.First

open Library

/-- `nodeid_t`. -/
abbrev NodeId := UInt16

/-- `strat_t`. -/
abbrev Strat := UInt8

/-- `VLOC_DIM`. -/
def vlocDim : Nat := 3

/-- `MAXNEIGH`. -/
def maxNeigh : Nat := 20

/-- `MAXSTRAT`. -/
def maxStrat : Strat := 5

/-- `STRAT_INF`: heard, but perhaps not hearing us. -/
def stratInf : Strat := 255

/-- `BEACON_TIMEOUT`, in seconds. -/
def beaconTimeout : Int := 60

/-- A `vloc_t`. -/
abbrev VLoc := Fin vlocDim → Int32

/-- A `beacon_t`. -/
structure BeaconT where
  /-- The node. -/
  id : NodeId
  /-- Its distance in links. -/
  stratum : Strat
  /-- Its virtual location. -/
  vloc : VLoc
  deriving DecidableEq

/-- The packed layout of a `beacon_t`. -/
def beaconLayout : Packed BeaconT :=
  (Packed.uint16.prod (Packed.uint8.prod (Packed.int32.array vlocDim))).via
    (fun p => { id := p.1, stratum := p.2.1, vloc := p.2.2 })
    (fun b => (b.id, b.stratum, b.vloc)) fun _ => rfl

/-- `sizeof(beacon_t)`. -/
@[simp] theorem beaconLayout_size : beaconLayout.size = 15 := rfl

/-- A `neighbour_t`; `stamp` is a `time_t`, in seconds. -/
structure NeighbourT where
  /-- Whether the entry is live. -/
  state : Int
  /-- The node. -/
  id : NodeId
  /-- Its distance in links. -/
  stratum : Strat
  /-- Its virtual location. -/
  vloc : VLoc
  /-- When it was last heard of. -/
  stamp : Int
  deriving DecidableEq

/-- `Identifier`, and the entries in use of `Neighbours`. -/
structure Beacons where
  /-- The node itself. -/
  identifier : NodeId
  /-- The first `Nneigh` entries. -/
  neighbours : List NeighbourT
  /-- There is room for them. -/
  length_le : neighbours.length ≤ maxNeigh

/-- How a call of `beacon_recv` stops. -/
inductive BeaconAbort where
  /-- `assert(length % sizeof(beacon_t) == 0)`. -/
  | length
  /-- `assert(beacon[0].stratum == 0)`. -/
  | stratum
  /-- `assert (j < MAXNEIGH)`. -/
  | tableFull
  /-- A record is read behind the end of the buffer. -/
  | outOfBounds
  deriving DecidableEq, Repr

/-- One more than `RAND_MAX`. -/
abbrev randRange : Nat := 2147483648

/-- An `int` as a `size_t`. -/
def sizeT (n : Int) : Nat := (n % 2 ^ 64).toNat

/-- A `size_t` as an `int`. -/
def intOf (n : Nat) : Int := Int.bmod n (2 ^ 32)

theorem sizeT_natCast {n : Nat} (h : n < 2 ^ 31) : sizeT n = n := by
  rw [sizeT]
  omega

theorem intOf_of_lt {n : Nat} (h : n < 2 ^ 31) : intOf n = n := by
  have hlow : -((2 ^ 32 : Nat) / 2 : Int) ≤ n := by omega
  have hhigh : (n : Int) < ((2 ^ 32 : Nat) + 1) / 2 := by omega
  exact Int.bmod_eq_of_le hlow hhigh

/-- `beacon_init`; `tape` is what the calls of `rand` return. -/
def beaconInit (identifier : NodeId) (tape : Nat → Fin randRange) : Beacons where
  identifier := identifier
  neighbours := [{
    state := 1
    id := identifier
    stratum := 0
    vloc := fun k => Int32.ofNat ((tape k).val % 11) - 5
    stamp := 0 }]
  length_le := by rw [List.length_singleton]; decide

/-! ## Receiving -/

/-- The ids that have an entry. -/
def Beacons.ids (s : Beacons) : List NodeId := s.neighbours.map NeighbourT.id

/-- The entry that a record makes. -/
def neighbourOf (now : Int) (b : BeaconT) : NeighbourT where
  state := 1
  id := b.id
  stratum := if b.stratum < stratInf then b.stratum + 1 else b.stratum
  vloc := b.vloc
  stamp := now

/-- Whether the entry that is there gives way to the new one. -/
def givesWay (new old : NeighbourT) : Bool := old.state == 0 || decide (new.stratum ≤ old.stratum)

/-- The end of a turn of the second loop of `beacon_recv`: the entry goes to the first place with
its id, or to the end. -/
def Beacons.store (s : Beacons) (new : NeighbourT) : Except BeaconAbort Beacons :=
  if room : new.id ∈ s.ids ∨ s.neighbours.length < maxNeigh then
    .ok { s with
      neighbours := upsert NeighbourT.id givesWay new s.neighbours
      length_le := by
        have hle := s.length_le
        rw [length_upsert]
        split
        · exact hle
        · rename_i hnew
          have hlt := room.resolve_left hnew
          omega }
  else .error .tableFull

/-- A turn of the second loop of `beacon_recv`. -/
def Beacons.record (now : Int) (s : Beacons) (b : BeaconT) : Except BeaconAbort Beacons :=
  if b.id = s.identifier then .ok s else s.store (neighbourOf now b)

/-- A record that shows that the sender hears us. -/
def hearsUs (identifier : NodeId) (b : BeaconT) : Bool :=
  b.id == identifier && (b.stratum == 1 || b.stratum == stratInf)

/-- The records that count: all of them if the sender hears us, else the sender's alone, which then
says so. -/
def heard (identifier : NodeId) : List BeaconT → List BeaconT
  | [] => []
  | first :: rest =>
    if rest.any (hearsUs identifier) then first :: rest else [{ first with stratum := stratInf }]

/-- `beacon_recv` on the memory from `buffer` on, at the time `now`. -/
def beaconRecv (s : Beacons) (buffer : List UInt8) (length now : Int) :
    Except BeaconAbort Beacons :=
  if sizeT length % beaconLayout.size ≠ 0 then .error .length
  else if buffer.length < beaconLayout.size then .error .outOfBounds
  else if (beaconLayout.decode buffer).stratum ≠ 0 then .error .stratum
  else if (beaconLayout.decode buffer).id = s.identifier then .ok s
  else
    let nbeacon := (intOf (sizeT length / beaconLayout.size)).toNat
    if buffer.length < nbeacon * beaconLayout.size then .error .outOfBounds
    else (heard s.identifier (beaconLayout.decodeList nbeacon buffer)).foldlM (Beacons.record now) s

/-! ## Sending -/

/-- The loop of `beacon_prepare`, with `j` records written: the records from there on. -/
def prepareLoop (table : List NeighbourT) (length : Int) : Nat → List NeighbourT → List BeaconT
  | _, [] => []
  | j, n :: rest =>
    if j * beaconLayout.size < sizeT length then
      if n.state = 0 then prepareLoop table length j rest
      else if maxStrat ≤ n.stratum ∧ n.stratum ≠ stratInf then prepareLoop table length j rest
      else
        -- The stratum is the one of entry `j`, not of the entry that is written.
        { id := n.id, stratum := (table.map NeighbourT.stratum).getD j 0, vloc := n.vloc } ::
          prepareLoop table length (j + 1) rest
    else []

/-- The records that `beacon_prepare` writes. -/
def Beacons.prepared (s : Beacons) (length : Int) : List BeaconT :=
  prepareLoop s.neighbours length 0 s.neighbours

/-- `beacon_prepare`: the bytes it writes, one after another; it returns how many. -/
def beaconPrepare (s : Beacons) (length : Int) : List UInt8 :=
  beaconLayout.encodeList (s.prepared length)

/-! ## Moving -/

/-- The first loop of `beacon_recalc`, for one entry. -/
def expire (stampTimeout : Int) (n : NeighbourT) : NeighbourT :=
  if n.stamp < stampTimeout then { n with state := 0 } else n

/-- A turn of the loop of `beacon_recalc` that tries locations, on the best one so far and its
energy. -/
def descendStep (energy : VLoc → UInt64) (tape : Nat → Fin randRange) (old : VLoc × UInt64)
    (i : Nat) : VLoc × UInt64 :=
  let newvloc : VLoc := fun k => old.1 k + Int32.ofNat ((tape (vlocDim * i + k)).val % 3) - 1
  if energy newvloc ≤ old.2 then (newvloc, energy newvloc) else old

/-- The loop of `beacon_recalc` that tries locations. -/
def descend (energy : VLoc → UInt64) (tape : Nat → Fin randRange) (vloc : VLoc) : VLoc × UInt64 :=
  (List.range 100).foldl (descendStep energy tape) (vloc, energy vloc)

/-- The entries that `calc_energy` looks at. -/
def survivors (others : List NeighbourT) : List NeighbourT := others.filter fun n => n.state ≠ 0

/-- What `beacon_recalc` does to the table; `energy` is `calc_energy`, which computes in floating
point. Without an entry for the node itself there is nothing to move. -/
def recalcTable (energy : List NeighbourT → VLoc → UInt64) (now : Int)
    (tape : Nat → Fin randRange) : List NeighbourT → List NeighbourT
  | [] => []
  | self :: others =>
    let others := others.map (expire (now - beaconTimeout))
    let curenergy := energy (survivors others) self.vloc
    let (oldvloc, oldenergy) := descend (energy (survivors others)) tape self.vloc
    (if oldenergy < curenergy then { self with vloc := oldvloc } else self) :: others

theorem length_recalcTable {energy : List NeighbourT → VLoc → UInt64} {now : Int}
    {tape : Nat → Fin randRange} (table : List NeighbourT) :
    (recalcTable energy now tape table).length = table.length := by
  cases table with
  | nil => rfl
  | cons self others => rw [recalcTable, List.length_cons, List.length_map, List.length_cons]

/-- `beacon_recalc`, at the time `now`. -/
def beaconRecalc (energy : List NeighbourT → VLoc → UInt64) (s : Beacons) (now : Int)
    (tape : Nat → Fin randRange) : Beacons where
  identifier := s.identifier
  neighbours := recalcTable energy now tape s.neighbours
  length_le := (length_recalcTable s.neighbours).trans_le s.length_le

end OldRadio.First
