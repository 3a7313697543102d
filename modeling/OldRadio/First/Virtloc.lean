import OldRadio.First.BeaconNetwork
import OldRadio.First.ListenLoop
import OldRadio.First.Packets
import OldRadio.Second.Crc

/-!
# The program of the first version

`virtloc.c`: what one program sends goes through `beacon_prepare`, the checksum
and `send_packet`, and what another one hears through `wait_packet`,
`recv_packet`, the check and `beacon_recv`. The port may hold anything, cut
anywhere. As long as no broken packet passes the check, a run of the programs is
one of the network in which beacons come in as they were sent. The checksum is
that of the second version, whose `crc.c` is the same.
-/

namespace OldRadio.First

open Library
open Second (crc16Set crc16Check crc16Check_crc16Set crc16Set_append)

/-- The size of `buffer`. -/
def bufferLen : Nat := 1024

/-- The first byte of a packet with a beacon in it. -/
def beaconType : UInt8 := 0x01

/-- What a program of `virtloc.c` keeps. -/
structure Virtloc where
  /-- Its table. -/
  beacons : Beacons
  /-- Its loops. -/
  loop : ListenLoop
  /-- When it began. -/
  tv0 : TimeVal
  /-- How many seconds it runs. -/
  endtime : Int

/-- Why a program does not go on. -/
inductive VirtlocStop where
  /-- It is elsewhere in its loops, or a call does not return. -/
  | disabled
  /-- The packet does not fit the buffer. -/
  | overrun
  /-- An assertion of the symbols. -/
  | symbols (e : SymbolAbort)
  /-- `assert(nbyt >= 2)` in `crc16_set`. -/
  | crcLength
  /-- An assertion of `beacon_recv`. -/
  | assertion (e : BeaconAbort)
  deriving DecidableEq, Repr

/-- What the environment does in a pass of the inner loop. -/
structure Hearing where
  /-- The calls of `poll` and `read`. -/
  turns : List SymbolTable.Turn
  /-- The variable of `wait_packet` before it is read into. -/
  c : UInt8
  /-- What there is to read. -/
  stream : List UInt8
  /-- What stands in the buffer behind the packet. -/
  behind : List UInt8
  /-- The clock. -/
  tv2 : TimeVal
  /-- What `rand` returns. -/
  rand : Fin randRange
  /-- What `time` returns. -/
  now : Int

/-- What `send_packet` was called with, and what has come of it. -/
structure Sent where
  /-- The packet. -/
  packet : List UInt8
  /-- What has gone out. -/
  wire : List UInt8
  /-- What it returns. -/
  done : Bool

/-- `wait_packet`, and `recv_packet` if a packet begins: the bytes it returns. -/
def SymbolTable.listen (t : SymbolTable) (turns : List SymbolTable.Turn) (c : UInt8)
    (stream : List UInt8) : Except SymbolAbort (Heard × List UInt8) :=
  match t.waitPacket turns c stream with
  | .failed => .ok (.noise, [])
  | .silent => .ok (.silence, [])
  | .started turns stream =>
    match t.recvPacket turns stream with
    | .error e => .error e
    | .ok bytes => .ok (if bytes = [] then .noise else .packet, bytes)

/-- A packet that holds a beacon and passes the check. -/
def holdsBeacon (bytes : List UInt8) : Bool := bytes.head? == some beaconType && crc16Check bytes

namespace Virtloc

/-- The run is over when a turn begins. -/
def timeUp (tv0 tv1 : TimeVal) (endtime : Int) : Bool :=
  endtime * 1000 < elapsedMillis tv0 tv1

/-- The program after `beacon_init`, in its first turn or over. -/
def start (identifier : NodeId) (tape : Nat → Fin randRange) (tv0 tv1 : TimeVal) (endtime : Int) :
    Virtloc where
  beacons := beaconInit identifier tape
  loop := { virtlocTimes.start tv1 with
    place := if timeUp tv0 tv1 endtime then .exited else .listening }
  tv0 := tv0
  endtime := endtime

/-- A pass of the inner loop. -/
def pass (t : SymbolTable) (s : Virtloc) (h : Hearing) : Except VirtlocStop Virtloc :=
  match t.listen h.turns h.c h.stream with
  | .error e => .error (.symbols e)
  | .ok (heard, bytes) =>
    if bufferLen < bytes.length then .error .overrun
    else if bytes.length + h.behind.length ≠ bufferLen then .error .disabled
    else
      match virtlocTimes.step s.loop (.pass heard h.tv2 h.rand) with
      | none => .error .disabled
      | some loop =>
        if holdsBeacon bytes then
          match beaconRecv s.beacons (bytes.drop 1 ++ h.behind) (bytes.length - 3 : Int) h.now with
          | .error e => .error (.assertion e)
          | .ok beacons => .ok { s with beacons, loop }
        else .ok { s with loop }

/-- The rest of the outer loop, and the beginning of the next turn. -/
def send (t : SymbolTable) (energy : List NeighbourT → VLoc → UInt64) (s : Virtloc) (now : Int)
    (tape : Nat → Fin randRange) (outcomes : List (Option Nat)) (tv1 : TimeVal) :
    Except VirtlocStop (Virtloc × Sent) :=
  match virtlocTimes.step s.loop (.send tv1) with
  | none => .error .disabled
  | some loop =>
    let beacons := beaconRecalc energy s.beacons now tape
    let beacon := beaconPrepare beacons (bufferLen - 1 : Nat)
    if bufferLen < beacon.length + 3 then .error .overrun
    else
      -- `crc16_set` writes the last two bytes, whatever they are.
      match crc16Set (beaconType :: (beacon ++ [0, 0])) with
      | .error _ => .error .crcLength
      | .ok packet =>
        match t.sendPacket packet outcomes with
        | .error e => .error (.symbols e)
        | .ok (none, _) => .error .disabled
        | .ok (some done, wire) => .ok
          ({ s with
              beacons
              loop := if timeUp s.tv0 tv1 s.endtime then { loop with place := .exited } else loop },
            { packet, wire, done })

end Virtloc

/-! ## Networks of programs -/

/-- Programs, and every packet sent so far with its sender. -/
structure VirtlocNetwork (ι : Type) where
  /-- The programs. -/
  programs : ι → Virtloc
  /-- The packets, latest first. -/
  air : List (ι × List UInt8)

/-- What may happen in a network of programs. -/
inductive VirtlocAction (ι : Type) where
  /-- A program is interrupted. -/
  | interrupt (i : ι)
  /-- A program hears something or nothing. -/
  | pass (j : ι) (h : Hearing)
  /-- A program sends. -/
  | send (i : ι) (now : Int) (tape : Nat → Fin randRange) (outcomes : List (Option Nat))
    (tv1 : TimeVal)

/-- The beacon of a packet. -/
def beaconIn (packet : List UInt8) : List UInt8 := (packet.drop 1).take (packet.length - 3)

namespace VirtlocNetwork

variable {ι : Type}

/-- The programs have begun. -/
def start (id : ι → NodeId) (tapes : ι → Nat → Fin randRange) (tv0 tv1 : ι → TimeVal)
    (endtime : ι → Int) : VirtlocNetwork ι where
  programs i := .start (id i) (tapes i) (tv0 i) (tv1 i) (endtime i)
  air := []

/-- An action. -/
def step [DecidableEq ι] (t : SymbolTable) (energy : List NeighbourT → VLoc → UInt64)
    (net : VirtlocNetwork ι) : VirtlocAction ι → Except VirtlocStop (VirtlocNetwork ι)
  | .interrupt i =>
    match virtlocTimes.step (net.programs i).loop .interrupt with
    | none => .error .disabled
    | some loop =>
      .ok { net with programs := Function.update net.programs i { net.programs i with loop } }
  | .pass j h =>
    match (net.programs j).pass t h with
    | .error e => .error e
    | .ok s => .ok { net with programs := Function.update net.programs j s }
  | .send i now tape outcomes tv1 =>
    match (net.programs i).send t energy now tape outcomes tv1 with
    | .error e => .error e
    | .ok (s, sent) => .ok
      { programs := Function.update net.programs i s, air := (i, sent.packet) :: net.air }

/-- What passes the check was sent: the noise on the line does not look like a beacon. -/
def Genuine (t : SymbolTable) (net : VirtlocNetwork ι) : VirtlocAction ι → Prop
  | .pass _ h => ∀ heard bytes, t.listen h.turns h.c h.stream = .ok (heard, bytes) →
    holdsBeacon bytes = true → ∃ i, (i, bytes) ∈ net.air
  | _ => True

/-- Whether an action is genuine can be seen from what is heard. -/
instance (net : VirtlocNetwork ι) (a : VirtlocAction ι) : Decidable (net.Genuine t a) :=
  match a with
  | .interrupt _ | .send .. => .isTrue trivial
  | .pass _ h =>
    match hlisten : t.listen h.turns h.c h.stream with
    | .error _ => .isTrue fun _ _ heq => by
      rw [hlisten] at heq
      cases heq
    | .ok (_, bytes) =>
      decidable_of_iff (holdsBeacon bytes = true → ∃ sent ∈ net.air, sent.2 = bytes) <| by
        constructor
        · intro hsent _ _ heq hholds
          rw [hlisten] at heq
          cases heq
          obtain ⟨⟨i, _⟩, hmem, rfl⟩ := hsent hholds
          exact ⟨i, hmem⟩
        · intro hgenuine hholds
          obtain ⟨i, hmem⟩ := hgenuine _ _ hlisten hholds
          exact ⟨(i, bytes), hmem, rfl⟩

/-- An action in which the check has done its work. -/
def Step [DecidableEq ι] (t : SymbolTable) (energy : List NeighbourT → VLoc → UInt64)
    (net : VirtlocNetwork ι) (a : VirtlocAction ι) (net' : VirtlocNetwork ι) : Prop :=
  net.step t energy a = .ok net' ∧ net.Genuine t a

/-- The network of the beacons. -/
def messages (net : VirtlocNetwork ι) : Network ι where
  nodes i := (net.programs i).beacons
  air := net.air.map fun sent => (sent.1, beaconIn sent.2)

end VirtlocNetwork

end OldRadio.First
