import OldRadio.Library.Rounding
import OldRadio.Second.Virtloc

/-!
# Nodes

`node.c`: what a node does with a received packet and with a timer event. A
node speaks to its front end through the callback only: with a packet to send
it, without one to ask for a timer. Printing is left out.
-/

namespace OldRadio.Second

open Library

/-- `node_s.status`. -/
inductive NodeStatus where
  /-- `NODE_STATUS_ASLEEP`. -/
  | asleep
  /-- `NODE_STATUS_WAKING`. -/
  | waking
  /-- `NODE_STATUS_AWAKE`. -/
  | awake
  /-- `NODE_STATUS_ROOT`. -/
  | root
  deriving DecidableEq, Repr

/-- The status as the byte it is stored in. -/
def NodeStatus.toByte : NodeStatus → UInt8
  | .asleep => 0
  | .waking => 1
  | .awake => 2
  | .root => 3

/-- `PACKET_TYPE_BEACON`. -/
def packetTypeBeacon : UInt8 := 0xBE

/-- `PACKET_TYPE_FLOOD`. -/
def packetTypeFlood : UInt8 := 0xF0

/-- `PACKET_TYPE_DATA`. -/
def packetTypeData : UInt8 := 0xDA

/-- A `packet_data_t`. -/
structure PacketData where
  /-- The first byte of the packet. -/
  packetType : UInt8
  /-- The node that made the packet. -/
  src : NodeId
  /-- The node it is for. -/
  dst : NodeId
  /-- The neighbour that passes it on. -/
  hop : NodeId
  /-- Location of the source. -/
  srcloc : Loc
  /-- Location of the destination. -/
  dstloc : Loc
  /-- Number of times it may still be passed on. -/
  ttl : Int32
  /-- When it was made. -/
  vtime : VTime
  deriving DecidableEq, Repr

/-- The packed layout of a `packet_data_t`. -/
def packetDataLayout : Packed PacketData :=
  (Packed.uint8.prod (Packed.uint16.prod (Packed.uint16.prod (Packed.uint16.prod
    (locLayout.prod (locLayout.prod (Packed.int32.prod Packed.uint64))))))).via
    (fun p =>
      { packetType := p.1, src := p.2.1, dst := p.2.2.1, hop := p.2.2.2.1
        srcloc := p.2.2.2.2.1, dstloc := p.2.2.2.2.2.1, ttl := p.2.2.2.2.2.2.1
        vtime := p.2.2.2.2.2.2.2 })
    (fun d => (d.packetType, d.src, d.dst, d.hop, d.srcloc, d.dstloc, d.ttl, d.vtime))
    fun _ => rfl

@[simp] theorem packetDataLayout_size : packetDataLayout.size = 43 := rfl

/-- A `node_t`. -/
structure Node where
  /-- The identity of the node. -/
  id : NodeId
  /-- Whether the node takes part. -/
  status : NodeStatus
  /-- The nodes it has heard of. -/
  neighTable : NeighTable
  /-- Where it believes to be. -/
  virtloc : Loc
  /-- No flood is passed on before this time. -/
  floodTimeout : VTime
  /-- When a waking node is awake. -/
  wakeTime : VTime

/-- `NODE_FLOOD_TIMEOUT`. -/
def nodeFloodTimeout : Nat := 1 * vtimeSeconds

/-- `NODE_BEACON_PERIOD`. -/
def nodeBeaconPeriod : Nat := 1 * vtimeSeconds

/-- `NODE_WAKEUP_PERIOD`. -/
def nodeWakeupPeriod : Nat := 2500000

/-- `NODE_BEACON_SIZE`. -/
def nodeBeaconSize : Nat := 200

/-- `NODE_BEACON_MAXSTRAT`. -/
def nodeBeaconMaxstrat : Stratum := 2

/-- `NODE_TTL_MAX`. -/
def nodeTtlMax : Int32 := 100

/-- `sizeof(node_beacon_header_t)`. -/
def nodeBeaconHeaderSize : Nat := 2

open Node (M)

/-- What `Node_callback` points to: called with a node's identity, a time, a packet
or none, and the argument of a timer. -/
abbrev NodeCallback (Front : Type) : Type :=
  NodeId → VTime → Option Nat → Option Nat → M Front Unit

/-! ## Delays -/

/-- `NODE_BEACON_PERIOD * ((float)rand() / RAND_MAX + 0.5)`, cut to whole microseconds. The
conversion to `float` rounds to 24 bits; everything after it is exact. -/
def beaconDelay (r : Nat) : Nat :=
  (roundSignificand 24 r + randRange / 2) * nodeBeaconPeriod / randRange

/-- `vtime + NODE_WAKEUP_PERIOD`, computed in doubles of 53 bits. -/
def wakeTimeAfter (vtime : VTime) : VTime :=
  UInt64.ofNat (roundSignificand 53 (roundSignificand 53 vtime.toNat + nodeWakeupPeriod))

/-! ## Routing -/

/-- The loop of `node_route_mfr` over the live neighbours. -/
def routeLoop (destId : NodeId) (destLoc : Loc) (maxstrat : Int) :
    List Neigh → UInt64 → Option Neigh → Option Neigh
  | [], _, minNeigh => minNeigh
  | n :: rest, minDist2, minNeigh =>
    if (n.stratum.toNat : Int) ≤ maxstrat then
      if n.id = destId then some n
      else
        let dist2 := locDist2 n.loc destLoc
        if dist2 < minDist2 then routeLoop destId destLoc maxstrat rest dist2 (some n)
        else routeLoop destId destLoc maxstrat rest minDist2 minNeigh
    else routeLoop destId destLoc maxstrat rest minDist2 minNeigh

/-- `node_route_mfr` with the depth of its recursion bounded. -/
def routeMfrFrom : Nat → Node → NodeId → Loc → Int → NodeId
  | 0, _, _, _, _ => nodeIdInvalid
  | fuel + 1, node, destId, destLoc, maxstrat =>
    match routeLoop destId destLoc maxstrat (neighIter node.neighTable)
      (locDist2 node.virtloc destLoc) none with
    | some n =>
      if n.stratum = 1 then n.id
      else routeMfrFrom fuel node n.id n.loc ((n.stratum.toNat : Int) - 1)
    | none => nodeIdInvalid

/-- `node_route_mfr`. Each call lowers `maxstrat`, and no stratum is negative. -/
def nodeRouteMfr (node : Node) (destId : NodeId) (destLoc : Loc) (maxstrat : Int) : NodeId :=
  routeMfrFrom (maxstrat + 2).toNat node destId destLoc maxstrat

/-! ## Beacons -/

/-- Whether `node_beacon` lists a neighbour. -/
def beaconLists (n : Neigh) : Bool :=
  decide (1 ≤ n.stratum) && decide (n.stratum ≤ nodeBeaconMaxstrat) ||
    n.stratum == neighStratumInf

/-- The node itself as the first entry of its beacon. -/
def Node.asNeigh (node : Node) : Neigh :=
  { id := node.id, stratum := 0, loc := node.virtloc }

/-- The entries of a beacon: the node itself and as many neighbours as fit. -/
def beaconEntries (node : Node) : List Neigh :=
  node.asNeigh :: ((neighIter node.neighTable).filter beaconLists).take
    ((nodeBeaconSize - nodeBeaconHeaderSize) / neighLayout.size - 1)

/-- The bytes of a beacon. -/
def beaconData (node : Node) : List UInt8 :=
  packetTypeBeacon :: node.status.toByte :: neighLayout.encodeList (beaconEntries node)

/-- The number of entries of a received beacon. The assertion computes in `size_t`, and reading
the first entry of a shorter packet leaves it. -/
def beaconCount (length : Nat) : Except Abort Nat :=
  if (UInt64.ofNat length - UInt64.ofNat nodeBeaconHeaderSize) %
      UInt64.ofNat neighLayout.size ≠ 0 then .error .beaconLength
  else if length < nodeBeaconHeaderSize + neighLayout.size then .error .outOfBounds
  else .ok ((length - nodeBeaconHeaderSize) / neighLayout.size)

/-- The entries of a received beacon. -/
def beaconParse (data : List UInt8) : Except Abort (List Neigh) := do
  let nneigh ← beaconCount data.length
  return neighLayout.decodeList nneigh (data.drop nodeBeaconHeaderSize)

/-- The loop that sets `seen_self`. -/
def beaconSeesSelf (id : NodeId) (neighs : List Neigh) : Bool :=
  neighs.any fun n => n.id == id && (n.stratum == 1 || n.stratum == neighStratumInf)

/-- One entry of a beacon that sees its receiver. -/
def recordNeigh (id : NodeId) (vtime : VTime) (table : NeighTable) (n : Neigh) :
    Except Abort NeighTable :=
  if n.id ≠ id ∧ n.stratum ≠ neighStratumInf then
    neighTableInsert table { n with stratum := n.stratum + 1 } vtime
  else .ok table

/-- The table of a node after the entries of a beacon. -/
def recordBeacon (id : NodeId) (vtime : VTime) (table : NeighTable) (neighs : List Neigh) :
    Except Abort NeighTable :=
  if beaconSeesSelf id neighs then neighs.foldlM (recordNeigh id vtime) table
  else
    match neighs with
    | [] => .error .outOfBounds
    | first :: _ => neighTableInsert table { first with stratum := neighStratumInf } vtime

section Effects

variable {F Front : Type} (ops : FloatOps F) (callback : NodeCallback Front)

/-! ## Status -/

/-- The delay of the timer that a new status asks for. -/
def statusDelay (status : NodeStatus) : M Front Nat :=
  if status = .root then return 0
  else do
    let r ← rand
    return beaconDelay r

/-- `node_set_status`; `callback?` is `none` before a callback is registered. -/
def nodeSetStatus (callback? : Option (NodeCallback Front)) (node : Node) (vtime : VTime)
    (status : NodeStatus) : M Front Node :=
  match callback? with
  | none => return { node with status }
  | some callback =>
    if status = .asleep then return { node with status }
    else do
      let delay ← statusDelay status
      callback node.id (vtime.after delay) none none
      return { node with status }

/-- A node before its first status change. -/
def nodeBlank (id : NodeId) (virtloc : Loc) : Node :=
  { id, status := .asleep, neighTable := neighTableNew, virtloc
    floodTimeout := vtimeZero, wakeTime := vtimeZero }

/-- `node_init`. -/
def nodeInit (callback? : Option (NodeCallback Front)) (id : NodeId) (nodeOpts : List Char) :
    M Front Node := do
  let virtloc ← virtlocInit id
  if 'R' ∈ nodeOpts ∧ id = 0 then nodeSetStatus callback? (nodeBlank id virtloc) vtimeZero .root
  else if 'A' ∈ nodeOpts then nodeSetStatus callback? (nodeBlank id virtloc) vtimeZero .awake
  else return nodeBlank id virtloc

/-! ## Receiving -/

/-- The part of `node_receive_beacon` that wakes a sleeping node. -/
def nodeWake (node : Node) (vtime : VTime) (loc : Loc) : M Front Node := do
  let node ← nodeSetStatus (some callback) node vtime .waking
  let virtloc ← locPerturb loc 5
  callback node.id (vtime.after nodeBeaconPeriod) none none
  return { node with virtloc, wakeTime := wakeTimeAfter vtime }

/-- The part of `node_receive_beacon` that records the beacon. -/
def nodeRecord (node : Node) (vtime : VTime) (neighs : List Neigh) : M Front Node := do
  let neighTable ← ofExcept (recordBeacon node.id vtime node.neighTable neighs)
  return { node with neighTable }

/-- `node_receive_beacon`. -/
def nodeReceiveBeacon (node : Node) (vtime : VTime) (packet : Packet) : M Front Node := do
  let neighs ← ofExcept (beaconParse packet.data)
  if node.status = .asleep then
    if packet.data.getD 1 0 = NodeStatus.waking.toByte then return node
    else do
      let node ← nodeWake callback node vtime (neighs.headD node.asNeigh).loc
      nodeRecord node vtime neighs
  else nodeRecord node vtime neighs

/-- `node_send_data`. -/
def nodeSendData (node : Node) (vtime : VTime) (data : PacketData) : M Front Unit := do
  let ptr ← packetAlloc (packetDataLayout.encode data)
  callback node.id vtime (some ptr) none
  packetFree ptr

/-- `node_forward_data`. -/
def nodeForwardData (node : Node) (vtime : VTime) (data : PacketData) : M Front Unit :=
  let hop := nodeRouteMfr node data.dst data.dstloc 1
  if hop = nodeIdInvalid then return ()
  else nodeSendData callback node vtime { data with ttl := data.ttl - 1, hop }

/-- `node_receive_data`. -/
def nodeReceiveData (node : Node) (vtime : VTime) (packet : Packet) : M Front Unit :=
  if packet.data.length < packetDataLayout.size then throw .dataLength
  else
    let data := packetDataLayout.decode packet.data
    if data.hop ≠ node.id then return ()
    else if data.dst = node.id then return ()
    else nodeForwardData callback node vtime data

/-- `node_send_flood`. -/
def nodeSendFlood (node : Node) (vtime : VTime) (ptr : Nat) : M Front Node :=
  if node.floodTimeout < vtime then do
    callback node.id vtime (some ptr) none
    return { node with floodTimeout := vtime.after nodeFloodTimeout }
  else return node

/-- `node_receive_flood`. Only two fields of the reply are set; the others are what the memory
holds. -/
def nodeReceiveFlood (node : Node) (vtime : VTime) (ptr : Nat) : M Front Node := do
  let node ← nodeSendFlood callback node vtime ptr
  let w ← get
  let reply := packetDataLayout.decode (w.uninit w.heap.length)
  nodeSendData callback node vtime { reply with src := node.id, srcloc := node.virtloc }
  return node

/-- `node_receive`. -/
def nodeReceive (node : Node) (vtime : VTime) (ptr : Nat) : M Front Node := do
  let packet ← packetRead ptr
  let dataType := packet.data.headD 0
  if dataType = packetTypeBeacon then nodeReceiveBeacon callback node vtime packet
  else if dataType = packetTypeFlood then nodeReceiveFlood callback node vtime ptr
  else if dataType = packetTypeData then do
    nodeReceiveData callback node vtime packet
    return node
  else return node

/-! ## Timers -/

/-- The part of `node_timer` that ends a node's waking. -/
def nodeTimerStatus (node : Node) (vtime : VTime) : M Front Node :=
  if node.status = .waking ∧ node.wakeTime ≤ vtime then
    nodeSetStatus (some callback) node vtime .awake
  else return node

/-- `node_virtloc_recalc`. -/
def nodeVirtlocRecalc (node : Node) : M Front Node := do
  let virtloc ← virtlocRecalc ops node.virtloc node.neighTable
  return { node with virtloc }

/-- The part of `node_timer` that sends a beacon. -/
def nodeSendBeacon (node : Node) (vtime : VTime) : M Front Unit := do
  let ptr ← packetAlloc (beaconData node)
  callback node.id vtime (some ptr) none
  packetFree ptr

/-- `node_timer`. -/
def nodeTimer (node : Node) (vtime : VTime) (extra : Option Nat) : M Front Node := do
  let node ← nodeTimerStatus callback node vtime
  let node ← nodeVirtlocRecalc ops node
  nodeSendBeacon callback node vtime
  let r ← rand
  callback node.id (vtime.after (beaconDelay r)) none extra
  return node

/-- `node_route_test`. -/
def nodeRouteTest (node : Node) (vtime : VTime) : M Front Unit :=
  nodeForwardData callback node vtime
    { packetType := packetTypeData, src := node.id, dst := 0, hop := 0, srcloc := node.virtloc
      dstloc := locZero, ttl := nodeTtlMax, vtime }

end Effects

end OldRadio.Second
