import OldRadio.Library.Lists
import OldRadio.Second.BeaconInserts

/-!
# What node code does to its surroundings

Node code calls `rand`, allocates and frees packets, and calls its front end
with packets and for timers. A property of the surroundings that each of these
keeps is kept by everything a node does. Separately, what an event leaves of the
node itself does not depend on the front end.
-/

namespace OldRadio.Second

open Library
open Node (M)

variable {F Front : Type} {ops : FloatOps F} {callback : NodeCallback Front} {id : NodeId}
  {vtime : VTime} {good : List UInt8 → Prop} {bad : Abort → Prop} {I : World Front → Prop}

/-! ## Surroundings -/

/-- A property kept by the effects of node `id` at `vtime` that ask for no timer, when the
packets it sends are `good`. -/
structure Kept (callback : NodeCallback Front) (id : NodeId) (vtime : VTime)
    (good : List UInt8 → Prop) (bad : Abort → Prop) (I : World Front → Prop) : Prop where
  /-- A call of `rand`. -/
  skip : ∀ w, I w → I (w.skip 1)
  /-- An allocation. -/
  push : ∀ w data, good data → I w → I (w.push { refcount := 1, data })
  /-- A change of a packet's holders. -/
  poke : ∀ w ptr p n, w.heap[ptr]? = some p → I w → I (w.poke ptr { p with refcount := n })
  /-- Sending a packet. -/
  send : ∀ w ptr p, w.heap[ptr]? = some p → good p.data → I w →
    Wp (callback id vtime (some ptr) none) (fun _ => I) bad w
  /-- The program may stop at a packet that is held no more. -/
  freed : bad .packetFreed
  /-- The program may stop at a full neighbour table. -/
  full : bad .neighTableFull
  /-- The program may stop at a read outside a packet. -/
  bounds : bad .outOfBounds

/-- A property kept by timer requests too. -/
structure KeptTimer (callback : NodeCallback Front) (id : NodeId) (vtime : VTime)
    (good : List UInt8 → Prop) (bad : Abort → Prop) (I : World Front → Prop) : Prop
    extends Kept callback id vtime good bad I where
  /-- Asking for a timer. -/
  timer : ∀ w delay extra, delay ≤ 1500000 → I w →
    Wp (callback id (vtime.after delay) none extra) (fun _ => I) bad w

/-- Allocating a packet, sending it and freeing it. -/
def sendNew (callback : NodeCallback Front) (id : NodeId) (vtime : VTime) (data : List UInt8) :
    M Front Unit := do
  let ptr ← packetAlloc data
  callback id vtime (some ptr) none
  packetFree ptr

/-- A property kept by what node `id` does at `vtime` without a timer, when it sends new packets
only: it may not hold while one is being sent. -/
structure KeptNew (callback : NodeCallback Front) (id : NodeId) (vtime : VTime)
    (good : List UInt8 → Prop) (bad : Abort → Prop) (I : World Front → Prop) : Prop where
  /-- A call of `rand`. -/
  skip : ∀ w, I w → I (w.skip 1)
  /-- Sending a new packet. -/
  sendNew : ∀ data, data ≠ [] → good data → Keeps I bad (sendNew callback id vtime data)

/-- A property kept by timer requests too. -/
structure KeptNewTimer (callback : NodeCallback Front) (id : NodeId) (vtime : VTime)
    (good : List UInt8 → Prop) (bad : Abort → Prop) (I : World Front → Prop) : Prop
    extends KeptNew callback id vtime good bad I where
  /-- Asking for a timer. -/
  timer : ∀ w delay extra, delay ≤ 1500000 → I w →
    Wp (callback id (vtime.after delay) none extra) (fun _ => I) bad w

theorem beaconDelay_le {r : Nat} (h : r < randRange) : beaconDelay r ≤ 1500000 := by
  have hround : roundSignificand 24 r ≤ 2 ^ 31 := roundSignificand_le (by decide) h.le
  unfold beaconDelay nodeBeaconPeriod vtimeSeconds randRange
  omega

theorem KeptNew.skips (h : KeptNew callback id vtime good bad I) {w : World Front} (n : Nat)
    (hw : I w) : I (w.skip n) := by
  induction n with
  | zero => exact hw
  | succ n ih =>
    rw [← World.skip_skip]
    exact h.skip _ ih

namespace Kept

variable (h : Kept callback id vtime good bad I)
include h

theorem keeps_packetFree (ptr : Nat) : Keeps I bad (packetFree ptr) := by
  intro w hw
  rw [packetFree, wp_bind]
  exact wp_packetRead h.freed fun p hp => h.poke w ptr p _ hp hw

/-- Sending a new packet keeps the property. -/
theorem keeps_sendNew {data : List UInt8} (hne : data ≠ []) (hgood : good data) :
    Keeps I bad (sendNew callback id vtime data) := by
  intro w hw
  rw [sendNew, wp_bind, wp_packetAlloc hne, wp_bind]
  have hsend := h.send (w.push { refcount := 1, data }) w.heap.length { refcount := 1, data }
    (w.push_heap _) hgood (h.push w data hgood hw)
  exact hsend.imp fun _ w' hw' => h.keeps_packetFree _ w' hw'

theorem keptNew : KeptNew callback id vtime good bad I where
  skip := h.skip
  sendNew _ hne hgood := h.keeps_sendNew hne hgood

end Kept

theorem packetDataLayout_encode_ne_nil (data : PacketData) : packetDataLayout.encode data ≠ [] := by
  intro hnil
  have := packetDataLayout.length_encode data
  rw [hnil] at this
  cases this

/-- The type of a decoded data packet is the first byte. -/
theorem packetType_decode (data : List UInt8) :
    (packetDataLayout.decode data).packetType = data.headD 0 := by
  cases data with
  | nil => rfl
  | cons b rest =>
    change UInt8.ofNat (Packed.littleEndian ((b :: rest).take 1)) = b
    rw [List.take_succ_cons, List.take_zero, Packed.littleEndian, List.foldr_cons, List.foldr_nil,
      Nat.mul_zero, Nat.add_zero, UInt8.ofNat_toNat]

/-- The first byte of a data packet is its type. -/
theorem headD_encode (data : PacketData) :
    (packetDataLayout.encode data).headD 0 = data.packetType := by
  have h := packetType_decode (packetDataLayout.encode data)
  rw [packetDataLayout.decode_encode_self] at h
  exact h.symm

theorem beaconData_ne_nil (node : Node) : beaconData node ≠ [] := List.cons_ne_nil _ _

theorem length_beaconEntries (node : Node) :
    1 ≤ (beaconEntries node).length ∧ (beaconEntries node).length ≤ 13 := by
  have hmax : (nodeBeaconSize - nodeBeaconHeaderSize) / neighLayout.size - 1 = 12 := by decide
  rw [beaconEntries, List.length_cons, List.length_take, hmax]
  omega

theorem length_beaconData (node : Node) :
    (beaconData node).length = (beaconEntries node).length * 15 + 2 := by
  simp [beaconData]

/-- Whether a packet wakes a node: it sleeps, and the packet is a beacon of a node that is not
waking itself. -/
def Node.wakesOn (node : Node) (packet : Packet) : Bool :=
  node.status == .asleep && packet.data.headD 0 == packetTypeBeacon &&
    (beaconParse packet.data).toOption.isSome &&
    packet.data.getD 1 0 != NodeStatus.waking.toByte

theorem Node.asleep_of_wakesOn {node : Node} {packet : Packet} (h : node.wakesOn packet = true) :
    node.status = .asleep := by
  simp only [Node.wakesOn, Bool.and_eq_true, beq_iff_eq] at h
  exact h.1.1.1

theorem Node.beacon_of_wakesOn {node : Node} {packet : Packet} (h : node.wakesOn packet = true) :
    packet.data.headD 0 = packetTypeBeacon := by
  simp only [Node.wakesOn, Bool.and_eq_true, beq_iff_eq] at h
  exact h.1.1.2

/-- A parsed beacon has an entry of its sender. -/
theorem beaconParse_ne_nil {data : List UInt8} {neighs : List Neigh}
    (h : beaconParse data = .ok neighs) : neighs ≠ [] := by
  rintro rfl
  rw [beaconParse, beaconCount] at h
  split at h
  · cases h
  · split at h
    · cases h
    · rename_i hlen
      have hzero := congrArg List.length (Except.ok.inj h)
      rw [Packed.length_decodeList, List.length_nil, neighLayout_size,
        nodeBeaconHeaderSize] at hzero
      rw [neighLayout_size, nodeBeaconHeaderSize] at hlen
      omega

/-- Parsing a beacon stops at its length, or at a first entry that is not there. -/
theorem beaconParse_error {data : List UInt8} {e : Abort} (h : beaconParse data = .error e) :
    e = .beaconLength ∨ e = .outOfBounds := by
  rw [beaconParse, beaconCount] at h
  split at h
  · cases h
    exact Or.inl rfl
  · split at h
    · cases h
      exact Or.inr rfl
    · cases h

theorem Node.wakesOn_of_parse (node : Node) {packet : Packet} {neighs : List Neigh}
    (htype : packet.data.headD 0 = packetTypeBeacon)
    (hparse : beaconParse packet.data = .ok neighs) :
    node.wakesOn packet = true ↔
      node.status = .asleep ∧ packet.data.getD 1 0 ≠ NodeStatus.waking.toByte := by
  rw [Node.wakesOn, hparse, htype]
  simp [Except.toOption]

/-- A node does not ignore a beacon: it is awake, or the beacon wakes it. -/
def Node.Records (node : Node) (data : List UInt8) : Prop :=
  ¬ (node.status = .asleep ∧ data.getD 1 0 = NodeStatus.waking.toByte)

/-- Recording a beacon touches the table of the node only. -/
theorem wp_nodeRecord (node : Node) (vtime : VTime) {w : World Front} {neighs : List Neigh}
    {after : Node → World Front → Prop} (hne : neighs ≠ [])
    (hfull : recordBeacon node.id vtime node.neighTable neighs = .error .neighTableFull →
      bad .neighTableFull)
    (h : ∀ neighTable, recordBeacon node.id vtime node.neighTable neighs = .ok neighTable →
      after { node with neighTable } w) : Wp (nodeRecord node vtime neighs) after bad w := by
  rw [nodeRecord, wp_bind]
  refine wp_ofExcept (fun neighTable hrecord => h neighTable hrecord) fun e he => ?_
  obtain rfl := recordBeacon_error hne he
  exact hfull he

/-- Receiving a packet that does not wake the node, by the type of the packet. A node that is asleep
ignores a beacon. -/
theorem wp_nodeReceive_unwoken {node : Node} {after : Node → World Front → Prop} {w : World Front}
    {ptr : Nat} {packet : Packet} (hp : w.heap[ptr]? = some packet)
    (hquiet : node.wakesOn packet = false) (hfreed : packet.refcount = 0 → bad .packetFreed)
    (hparse : ∀ e, packet.data.headD 0 = packetTypeBeacon →
      beaconParse packet.data = .error e → bad e)
    (hrecord : ∀ neighs, packet.data.headD 0 = packetTypeBeacon →
      beaconParse packet.data = .ok neighs → node.status ≠ .asleep →
      Wp (nodeRecord node vtime neighs) after bad w)
    (hflood : packet.data.headD 0 = packetTypeFlood →
      Wp (nodeReceiveFlood callback node vtime ptr) after bad w)
    (hdata : packet.data.headD 0 = packetTypeData →
      Wp (nodeReceiveData callback node vtime packet) (fun _ => after node) bad w)
    (hignored : after node w) : Wp (nodeReceive callback node vtime ptr) after bad w := by
  rw [nodeReceive, wp_bind]
  refine (wp_packetRead_iff hp).mpr ⟨hfreed, fun _ => ?_⟩
  dsimp only
  split
  · rename_i htype
    rw [nodeReceiveBeacon, wp_bind]
    refine wp_ofExcept (fun neighs hok => ?_) fun e => hparse e htype
    split
    · rename_i hasleep
      split
      · exact hignored
      · rename_i hstatus
        rw [(node.wakesOn_of_parse htype hok).mpr ⟨hasleep, hstatus⟩] at hquiet
        cases hquiet
    · rename_i hawake
      exact hrecord neighs htype hok hawake
  · split
    · rename_i htype
      exact hflood htype
    · split
      · rename_i htype
        rw [wp_bind]
        exact hdata htype
      · exact hignored

section Data

variable {node : Node} (hdata : ∀ data : PacketData, data.packetType = packetTypeData →
    good (packetDataLayout.encode data))

namespace KeptNew

variable (h : KeptNew callback node.id vtime good bad I)
include h

theorem keeps_nodeSendBeacon (hgood : good (beaconData node)) :
    Keeps I bad (nodeSendBeacon callback node vtime) :=
  h.sendNew _ (beaconData_ne_nil node) hgood

theorem keeps_nodeSendData {data : PacketData} (hgood : good (packetDataLayout.encode data)) :
    Keeps I bad (nodeSendData callback node vtime data) :=
  h.sendNew _ (packetDataLayout_encode_ne_nil data) hgood

include hdata

theorem keeps_nodeForwardData {data : PacketData} (htype : data.packetType = packetTypeData) :
    Keeps I bad (nodeForwardData callback node vtime data) := by
  unfold nodeForwardData
  exact Keeps.ite (fun _ => keeps_pure ()) fun _ => h.keeps_nodeSendData (hdata _ htype)

theorem keeps_nodeRouteTest : Keeps I bad (nodeRouteTest callback node vtime) :=
  h.keeps_nodeForwardData hdata rfl

theorem keeps_nodeReceiveData {packet : Packet} (htype : packet.data.headD 0 = packetTypeData)
    (hlength : packet.data.length < packetDataLayout.size → bad .dataLength) :
    Keeps I bad (nodeReceiveData callback node vtime packet) := by
  unfold nodeReceiveData
  refine Keeps.ite (fun hshort => keeps_throw (hlength hshort)) fun _ => ?_
  refine Keeps.ite (fun _ => keeps_pure ()) fun _ => Keeps.ite (fun _ => keeps_pure ()) fun _ => ?_
  exact h.keeps_nodeForwardData hdata ((packetType_decode packet.data).trans htype)

omit hdata in
/-- Receiving a packet that does not wake the node asks for no timer. -/
theorem wp_nodeReceive {w : World Front} {ptr : Nat} {packet : Packet}
    (hdata : packet.data.headD 0 = packetTypeData → ∀ data : PacketData,
      data.packetType = packetTypeData → good (packetDataLayout.encode data))
    (hp : w.heap[ptr]? = some packet) (hquiet : node.wakesOn packet = false)
    (hfreed : packet.refcount = 0 → bad .packetFreed)
    (hbeacon : ∀ e, packet.data.headD 0 = packetTypeBeacon →
      beaconParse packet.data = .error e → bad e)
    (hfull : ∀ neighs, packet.data.headD 0 = packetTypeBeacon →
      beaconParse packet.data = .ok neighs → node.Records packet.data →
      recordBeacon node.id vtime node.neighTable neighs = .error .neighTableFull →
      bad .neighTableFull)
    (hlength : packet.data.headD 0 = packetTypeData →
      packet.data.length < packetDataLayout.size → bad .dataLength)
    (hflood : packet.data.headD 0 = packetTypeFlood →
      Wp (nodeReceiveFlood callback node vtime ptr) (fun _ => I) bad w)
    (hw : I w) : Wp (nodeReceive callback node vtime ptr) (fun _ => I) bad w := by
  refine wp_nodeReceive_unwoken hp hquiet hfreed hbeacon (fun neighs htype hparse hawake => ?_)
    hflood (fun htype => ?_) hw
  · exact wp_nodeRecord node vtime (beaconParse_ne_nil hparse)
      (hfull neighs htype hparse fun hignored => hawake hignored.1) fun _ _ => hw
  · exact h.keeps_nodeReceiveData (hdata htype) htype (hlength htype) w hw

end KeptNew

namespace Kept

variable (h : Kept callback node.id vtime good bad I)
include h

/-- Passing on a flood leaves the node its identity and location. -/
theorem wp_nodeSendFlood {w : World Front} {ptr : Nat} {packet : Packet}
    (hp : w.heap[ptr]? = some packet) (hgood : good packet.data) (hw : I w) :
    Wp (nodeSendFlood callback node vtime ptr)
      (fun node' w' => node'.id = node.id ∧ I w') bad w := by
  unfold nodeSendFlood
  split
  · rw [wp_bind]
    exact (h.send w ptr packet hp hgood hw).imp fun _ _ hw' => ⟨rfl, hw'⟩
  · exact ⟨rfl, hw⟩

/-- Receiving a flood passes it on and answers it. -/
theorem wp_nodeReceiveFlood {w : World Front} {ptr : Nat} {packet : Packet}
    (hp : w.heap[ptr]? = some packet) (hgood : good packet.data)
    (hreply : ∀ data, good (packetDataLayout.encode data)) (hw : I w) :
    Wp (nodeReceiveFlood callback node vtime ptr) (fun _ => I) bad w := by
  rw [nodeReceiveFlood, wp_bind]
  refine (h.wp_nodeSendFlood hp hgood hw).imp fun node' w' hw' => ?_
  obtain ⟨hid, hw'⟩ := hw'
  rw [wp_bind, wp_get, wp_bind]
  exact (hid ▸ h.keptNew).keeps_nodeSendData (hreply _) w' hw'

include hdata

/-- Receiving a packet that does not wake the node asks for no timer. -/
theorem wp_nodeReceive {w : World Front} {ptr : Nat} {packet : Packet}
    (hp : w.heap[ptr]? = some packet) (hquiet : node.wakesOn packet = false)
    (hbeacon : ∀ e, packet.data.headD 0 = packetTypeBeacon →
      beaconParse packet.data = .error e → bad e)
    (hlength : packet.data.headD 0 = packetTypeData →
      packet.data.length < packetDataLayout.size → bad .dataLength)
    (hflood : packet.data.headD 0 = packetTypeFlood →
      good packet.data ∧ ∀ data, good (packetDataLayout.encode data))
    (hw : I w) : Wp (nodeReceive callback node vtime ptr) (fun _ => I) bad w :=
  h.keptNew.wp_nodeReceive (fun _ => hdata) hp hquiet (fun _ => h.freed) hbeacon
    (fun _ _ _ _ _ => h.full) hlength
    (fun htype => h.wp_nodeReceiveFlood hp (hflood htype).1 (hflood htype).2 hw) hw

end Kept

end Data

/-! ## Status changes and timers, exactly -/

section Exact

variable {node : Node} {w : World Front} {after : Node → World Front → Prop}

/-- A status other than the two ends of the range asks for a timer at a random delay. -/
theorem wp_nodeSetStatus {status : NodeStatus} (hasleep : status ≠ .asleep)
    (hroot : status ≠ .root) :
    Wp (nodeSetStatus (some callback) node vtime status) after bad w ↔
      Wp (callback node.id (vtime.after (beaconDelay (w.rand 0))) none none)
        (fun _ => after { node with status }) bad (w.skip 1) := by
  simp only [nodeSetStatus, hasleep, if_false, statusDelay, hroot, wp_bind, wp_rand, wp_pure]
  rfl

/-- The root asks for a timer at once. -/
theorem wp_nodeSetStatus_root :
    Wp (nodeSetStatus (some callback) node vtime .root) after bad w ↔
      Wp (callback node.id (vtime.after 0) none none)
        (fun _ => after { node with status := .root }) bad w := by
  simp only [nodeSetStatus, statusDelay, if_true, wp_bind, wp_pure, reduceCtorEq, if_false]
  rfl

/-- A new node asks for a timer at once as root, for one at a random delay when it starts awake,
and for none when it starts asleep. -/
theorem wp_nodeInit {nodeOpts : List Char}
    (hroot : 'R' ∈ nodeOpts ∧ id = 0 → ∀ virtloc, virtloc.FlatBeyond w.dims →
      Wp (callback id (vtimeZero.after 0) none none)
        (fun _ => after { nodeBlank id virtloc with status := .root }) bad
        (w.skip (initDraws w.dims id)))
    (hawake : 'A' ∈ nodeOpts → ∀ virtloc, virtloc.FlatBeyond w.dims →
      Wp (callback id (vtimeZero.after (beaconDelay (w.rand (initDraws w.dims id)))) none none)
        (fun _ => after { nodeBlank id virtloc with status := .awake }) bad
        (w.skip (initDraws w.dims id + 1)))
    (hasleep : ¬ ('R' ∈ nodeOpts ∧ id = 0) → 'A' ∉ nodeOpts → ∀ virtloc,
      virtloc.FlatBeyond w.dims → after (nodeBlank id virtloc) (w.skip (initDraws w.dims id))) :
    Wp (nodeInit (some callback) id nodeOpts) after bad w := by
  rw [nodeInit, wp_bind]
  refine wp_virtlocInit fun virtloc hflat => ?_
  split
  · rename_i hr
    exact wp_nodeSetStatus_root.mpr (hroot hr virtloc hflat)
  · rename_i hr
    split
    · rename_i ha
      rw [wp_nodeSetStatus (by decide) (by decide), World.skip_rand, World.skip_skip]
      exact hawake ha virtloc hflat
    · rename_i ha
      exact hasleep hr ha virtloc hflat

/-- Waking asks for two timers, a random delay and a full period ahead. -/
theorem wp_nodeWake {loc : Loc}
    (h : Wp (callback node.id (vtime.after (beaconDelay (w.rand 0))) none none)
      (fun _ w' => ∀ virtloc, virtloc.FlatBeyond w'.dims →
        Wp (callback node.id (vtime.after nodeBeaconPeriod) none none)
          (fun _ => after { node with status := .waking, virtloc, wakeTime := wakeTimeAfter vtime })
          bad (w'.skip (perturbDraws w'.dims))) bad (w.skip 1)) :
    Wp (nodeWake callback node vtime loc) after bad w := by
  rw [nodeWake, wp_bind, wp_nodeSetStatus (by decide) (by decide)]
  refine h.imp fun _ w' hw' => ?_
  rw [wp_bind]
  refine wp_locPerturb fun virtloc hflat => ?_
  rw [wp_bind]
  exact hw' virtloc hflat

/-- Receiving stops where there is no packet. -/
theorem wp_nodeReceive_read {ptr : Nat} (hfreed : bad .packetFreed)
    (h : ∀ packet, w.heap[ptr]? = some packet →
      Wp (nodeReceive callback node vtime ptr) after bad w) :
    Wp (nodeReceive callback node vtime ptr) after bad w := by
  cases hp : w.heap[ptr]? with
  | none =>
    rw [nodeReceive, wp_bind]
    exact wp_packetRead hfreed fun packet hp' => by cases hp.symm.trans hp'
  | some packet => exact h packet hp

/-- Receiving a packet that wakes the node is waking and recording the beacon. -/
theorem wp_nodeReceive_wake {ptr : Nat} {packet : Packet} (hp : w.heap[ptr]? = some packet)
    (hwakes : node.wakesOn packet = true) (hfreed : packet.refcount = 0 → bad .packetFreed)
    (h : ∀ neighs loc, beaconParse packet.data = .ok neighs →
      Wp (nodeWake callback node vtime loc)
        (fun node' w' => Wp (nodeRecord node' vtime neighs) after bad w') bad w) :
    Wp (nodeReceive callback node vtime ptr) after bad w := by
  rw [nodeReceive, wp_bind]
  refine (wp_packetRead_iff hp).mpr ⟨hfreed, fun _ => ?_⟩
  have htype := Node.beacon_of_wakesOn hwakes
  cases hparse : beaconParse packet.data with
  | error e => simp [Node.wakesOn, hparse, Except.toOption] at hwakes
  | ok neighs =>
    obtain ⟨hasleep, hstatus⟩ := (node.wakesOn_of_parse htype hparse).mp hwakes
    dsimp only
    rw [if_pos htype, nodeReceiveBeacon, hparse, wp_bind]
    refine wp_ofExcept (fun neighs' h' => ?_) fun e he => by cases he
    cases h'
    rw [if_pos hasleep, if_neg hstatus, wp_bind]
    exact h neighs _ hparse

/-- A data packet that is held is passed on by the node it is addressed to, unless it is for that
node, and ignored by every other. -/
theorem wp_nodeReceive_data {ptr : Nat} {packet : Packet} (hp : w.heap[ptr]? = some packet)
    (hheld : packet.refcount ≠ 0) (htype : packet.data.headD 0 = packetTypeData)
    (hlength : packetDataLayout.size ≤ packet.data.length) :
    Wp (nodeReceive callback node vtime ptr) after bad w ↔
      if (packetDataLayout.decode packet.data).hop = node.id ∧
          (packetDataLayout.decode packet.data).dst ≠ node.id then
        Wp (nodeForwardData callback node vtime (packetDataLayout.decode packet.data))
          (fun _ => after node) bad w
      else after node w := by
  have hbeacon : packetTypeData ≠ packetTypeBeacon := by decide
  have hflood : packetTypeData ≠ packetTypeFlood := by decide
  rw [nodeReceive, wp_bind, wp_packetRead_iff hp]
  simp only [hheld, htype, hbeacon, hflood, if_false, if_true, false_implies, true_and,
    ne_eq, not_false_eq_true, true_implies, wp_bind]
  rw [nodeReceiveData, if_neg (Nat.not_lt.mpr hlength)]
  by_cases hhop : (packetDataLayout.decode packet.data).hop = node.id
  · by_cases hdst : (packetDataLayout.decode packet.data).dst = node.id
    · simp [hhop, hdst]
    · simp only [hhop, hdst, ne_eq, not_true, if_false, not_false_eq_true, and_true, if_true]
      rfl
  · simp [hhop]

/-- A node that is not to be woken up keeps its status at a timer. -/
theorem wp_nodeTimerStatus_of_not (hdue : ¬ (node.status = .waking ∧ node.wakeTime ≤ vtime)) :
    Wp (nodeTimerStatus callback node vtime) after bad w ↔ after node w := by
  rw [nodeTimerStatus, if_neg hdue, wp_pure]

/-- A node that has been waking long enough asks for a timer of its own when it is awake. -/
theorem wp_nodeTimerStatus_of_due (hdue : node.status = .waking ∧ node.wakeTime ≤ vtime) :
    Wp (nodeTimerStatus callback node vtime) after bad w ↔
      Wp (callback node.id (vtime.after (beaconDelay (w.rand 0))) none none)
        (fun _ => after { node with status := .awake }) bad (w.skip 1) := by
  rw [nodeTimerStatus, if_pos hdue, wp_nodeSetStatus (by decide) (by decide)]

/-- The change of status at a timer event touches the status only, and keeps what its timer request
keeps. -/
theorem wp_nodeTimerStatus {J : World Front → Prop} (hw : J w)
    (hdue : Wp (callback node.id (vtime.after (beaconDelay (w.rand 0))) none none) (fun _ => J) bad
      (w.skip 1)) :
    Wp (nodeTimerStatus callback node vtime) (fun node' w' => (∃ status,
      node' = { node with status } ∧
      status = if node.status = .waking ∧ node.wakeTime ≤ vtime then .awake else node.status) ∧
      J w') bad w := by
  by_cases h : node.status = .waking ∧ node.wakeTime ≤ vtime
  · rw [wp_nodeTimerStatus_of_due h]
    exact hdue.imp fun _ _ hw' => ⟨⟨.awake, rfl, by rw [if_pos h]⟩, hw'⟩
  · rw [wp_nodeTimerStatus_of_not h]
    exact ⟨⟨node.status, rfl, by rw [if_neg h]⟩, hw⟩

/-- Recomputing the location calls `rand` only, and keeps it flat. -/
theorem wp_nodeVirtlocRecalc
    (h : ∀ virtloc, (ops.KeepsZero → node.virtloc.FlatBeyond w.dims → virtloc.FlatBeyond w.dims) →
      after { node with virtloc }
        (w.skip (recalcDraws ops w.dims node.virtloc node.neighTable))) :
    Wp (nodeVirtlocRecalc ops node) after bad w := by
  rw [nodeVirtlocRecalc, wp_bind]
  exact wp_virtlocRecalc ops fun virtloc hflat => h virtloc hflat

/-- The part of a timer event behind the change of status: the location is recomputed, a beacon
sent, and the next timer asked for. -/
theorem wp_nodeRearm {extra : Option Nat}
    (h : ∀ virtloc, (ops.KeepsZero → node.virtloc.FlatBeyond w.dims → virtloc.FlatBeyond w.dims) →
      Wp (nodeSendBeacon callback { node with virtloc } vtime)
        (fun _ w' => Wp (callback node.id (vtime.after (beaconDelay (w'.rand 0))) none extra)
          (fun _ => after { node with virtloc }) bad (w'.skip 1)) bad
        (w.skip (recalcDraws ops w.dims node.virtloc node.neighTable))) :
    Wp (do
      let node ← nodeVirtlocRecalc ops node
      nodeSendBeacon callback node vtime
      let r ← rand
      callback node.id (vtime.after (beaconDelay r)) none extra
      return node) after bad w := by
  rw [wp_bind]
  refine wp_nodeVirtlocRecalc fun virtloc hflat => ?_
  rw [wp_bind]
  refine (h virtloc hflat).imp fun _ w' hw' => ?_
  rw [wp_bind, wp_rand, wp_bind]
  exact hw'

end Exact

/-! ## What an event leaves of the node -/

/-- A node after it received a packet. -/
structure Received (node : Node) (vtime : VTime) (packet : Packet) (node' : Node) : Prop where
  /-- The identity stays. -/
  id_eq : node'.id = node.id
  /-- Only a beacon that wakes the node changes its status. -/
  status_eq : node'.status = if node.wakesOn packet then .waking else node.status
  /-- The table stays, or records the beacon. -/
  table : node'.neighTable = node.neighTable ∨
    ∃ neighs, packet.data.headD 0 = packetTypeBeacon ∧ beaconParse packet.data = .ok neighs ∧
      recordBeacon node.id vtime node.neighTable neighs = .ok node'.neighTable

/-- A node after a timer event. -/
structure Timed (node : Node) (vtime : VTime) (node' : Node) : Prop where
  /-- The identity stays. -/
  id_eq : node'.id = node.id
  /-- Only the end of waking changes the status. -/
  status_eq : node'.status =
    if node.status = .waking ∧ node.wakeTime ≤ vtime then .awake else node.status
  /-- The table stays. -/
  table_eq : node'.neighTable = node.neighTable

/-- A node after `node_init`. -/
structure Initial (id : NodeId) (node : Node) : Prop where
  /-- It has its identity. -/
  id_eq : node.id = id
  /-- It has heard of no one. -/
  table_eq : node.neighTable = neighTableNew

/-- Nodes initialised in order have their positions as identities. -/
theorem Initial.placed {n : Nat} (hn : n ≤ 2 ^ 16) {nodes : List Node}
    (h : List.Forall₂ (fun i node => Initial (UInt16.ofNat i) node) (List.range n) nodes) {i : Nat}
    {node : Node} (hnode : nodes[i]? = some node) :
    node.id.toNat = i ∧ node.neighTable = neighTableNew := by
  obtain ⟨hi, hinit⟩ := forall₂_range h hnode
  rw [hinit.id_eq, UInt16.toNat_ofNat']
  exact ⟨Nat.mod_eq_of_lt (show i < 2 ^ 16 by omega), hinit.table_eq⟩

section NodeAfter

variable {node : Node} {w : World Front}

private theorem wp_done {α : Type} {m : M Front α} {after : α → Prop} (h : ∀ a, after a) :
    Wp m (fun a _ => after a) (fun _ => True) w :=
  (wp_true m w).imp fun a _ _ => h a

/-- What `node_init` makes. -/
theorem wp_nodeInit_node {nodeOpts : List Char} :
    Wp (nodeInit (some callback) id nodeOpts) (fun node _ => Initial id node) (fun _ => True) w :=
  wp_nodeInit (fun _ _ _ => wp_done fun _ => ⟨rfl, rfl⟩)
    (fun _ _ _ => wp_done fun _ => ⟨rfl, rfl⟩) fun _ _ _ _ => ⟨rfl, rfl⟩

/-- A node that is woken moves, asks for its timers and records the beacon. -/
theorem wp_nodeReceive_woken {ptr : Nat} {packet : Packet} {after : Node → Prop}
    (hp : w.heap[ptr]? = some packet) (hwakes : node.wakesOn packet = true)
    (h : ∀ neighs virtloc neighTable, beaconParse packet.data = .ok neighs →
      recordBeacon node.id vtime node.neighTable neighs = .ok neighTable →
      after { node with
        status := .waking, virtloc, wakeTime := wakeTimeAfter vtime, neighTable }) :
    Wp (nodeReceive callback node vtime ptr) (fun node' _ => after node') (fun _ => True) w := by
  refine wp_nodeReceive_wake hp hwakes (fun _ => trivial) fun neighs loc hparse => wp_nodeWake ?_
  refine (wp_true _ _).imp fun _ w₁ _ virtloc _ => (wp_true _ _).imp fun _ w₂ _ => ?_
  exact wp_nodeRecord _ _ (beaconParse_ne_nil hparse) (fun _ => trivial)
    fun neighTable hrecord => h neighs virtloc neighTable hparse hrecord

/-- Receiving a flood sets at most the end of the silence about floods. -/
private theorem wp_nodeReceiveFlood_node {ptr : Nat} {after : Node → Prop} (hsilent : after node)
    (hpassed : after { node with floodTimeout := vtime.after nodeFloodTimeout }) :
    Wp (nodeReceiveFlood callback node vtime ptr) (fun node' _ => after node')
      (fun _ => True) w := by
  have hsend : Wp (nodeSendFlood callback node vtime ptr) (fun node' _ => after node')
      (fun _ => True) w := by
    rw [nodeSendFlood]
    split
    · rw [wp_bind]
      exact wp_done fun _ => hpassed
    · exact hsilent
  rw [nodeReceiveFlood, wp_bind]
  refine hsend.imp fun node' w' hnode => ?_
  rw [wp_bind, wp_get, wp_bind]
  exact wp_done fun _ => hnode

/-- What receiving a packet leaves of the node. -/
theorem wp_nodeReceive_node {ptr : Nat} {packet : Packet} (hp : w.heap[ptr]? = some packet) :
    Wp (nodeReceive callback node vtime ptr) (fun node' _ => Received node vtime packet node')
      (fun _ => True) w := by
  cases hwakes : node.wakesOn packet with
  | true =>
    refine wp_nodeReceive_woken hp hwakes fun neighs virtloc neighTable hparse hrecord => ?_
    refine ⟨rfl, ?_, Or.inr ⟨neighs, Node.beacon_of_wakesOn hwakes, hparse, hrecord⟩⟩
    rw [hwakes]
    rfl
  | false =>
    have hstatus : node.status =
        if node.wakesOn packet = true then NodeStatus.waking else node.status := by
      rw [hwakes]
      rfl
    refine wp_nodeReceive_unwoken hp hwakes (fun _ => trivial) (fun _ _ _ => trivial)
      (fun neighs htype hparse _ => ?_) (fun _ => ?_) (fun _ => ?_) ⟨rfl, hstatus, Or.inl rfl⟩
    · exact wp_nodeRecord _ _ (beaconParse_ne_nil hparse) (fun _ => trivial)
        fun neighTable hrecord => ⟨rfl, hstatus, Or.inr ⟨neighs, htype, hparse, hrecord⟩⟩
    · exact wp_nodeReceiveFlood_node ⟨rfl, hstatus, Or.inl rfl⟩ ⟨rfl, hstatus, Or.inl rfl⟩
    · exact wp_done fun _ => ⟨rfl, hstatus, Or.inl rfl⟩

/-- A node that is not woken keeps all but its table and the end of its silence about floods. -/
theorem wp_nodeReceive_quiet {ptr : Nat} {packet : Packet} (hp : w.heap[ptr]? = some packet)
    (hquiet : node.wakesOn packet = false) :
    Wp (nodeReceive callback node vtime ptr)
      (fun node' _ => ∃ neighTable floodTimeout, node' = { node with neighTable, floodTimeout })
      (fun _ => True) w := by
  have hsame : ∃ neighTable floodTimeout, node = { node with neighTable, floodTimeout } :=
    ⟨node.neighTable, node.floodTimeout, rfl⟩
  refine wp_nodeReceive_unwoken hp hquiet (fun _ => trivial) (fun _ _ _ => trivial)
    (fun neighs _ hparse _ => ?_) (fun _ => ?_) (fun _ => wp_done fun _ => hsame) hsame
  · exact wp_nodeRecord _ _ (beaconParse_ne_nil hparse) (fun _ => trivial)
      fun neighTable _ => ⟨neighTable, node.floodTimeout, rfl⟩
  · exact wp_nodeReceiveFlood_node hsame ⟨node.neighTable, _, rfl⟩

/-- Waking sets the time at which it ends. -/
theorem wp_nodeReceive_wakeTime {ptr : Nat} {packet : Packet} (hp : w.heap[ptr]? = some packet)
    (hwakes : node.wakesOn packet = true) :
    Wp (nodeReceive callback node vtime ptr) (fun node' _ => node'.wakeTime = wakeTimeAfter vtime)
      (fun _ => True) w :=
  wp_nodeReceive_woken hp hwakes fun _ _ _ _ _ => rfl

/-- A timer event changes the status, at the end of waking, and the location. -/
theorem wp_nodeTimer_moved {extra : Option Nat} :
    Wp (nodeTimer ops callback node vtime extra)
      (fun node' _ => ∃ status virtloc, node' = { node with status, virtloc } ∧
        status = if node.status = .waking ∧ node.wakeTime ≤ vtime then .awake else node.status)
      (fun _ => True) w := by
  rw [nodeTimer, wp_bind]
  refine (wp_nodeTimerStatus trivial (wp_true _ _)).imp
    fun node₁ w₁ h₁ => wp_nodeRearm fun virtloc _ => ?_
  obtain ⟨⟨status, rfl, hafter⟩, -⟩ := h₁
  refine (wp_true _ _).imp fun _ w₂ _ => ?_
  exact wp_done fun _ => ⟨status, virtloc, rfl, hafter⟩

/-- What a timer event leaves of the node. -/
theorem wp_nodeTimer_node {extra : Option Nat} :
    Wp (nodeTimer ops callback node vtime extra) (fun node' _ => Timed node vtime node')
      (fun _ => True) w := by
  refine wp_nodeTimer_moved.imp fun node' _ hnode' => ?_
  obtain ⟨status, virtloc, rfl, hafter⟩ := hnode'
  exact ⟨rfl, hafter, rfl⟩

/-- Only the bytes of the packet matter. -/
theorem Received.of_data {packet packet' : Packet} {node' : Node}
    (h : Received node vtime packet node') (hdata : packet.data = packet'.data) :
    Received node vtime packet' node' := by
  obtain ⟨hid, hstatus, htable⟩ := h
  rw [hdata] at htable
  rw [Node.wakesOn, hdata] at hstatus
  exact ⟨hid, hstatus, htable⟩

/-- A node that is asleep after it received was before, and was not woken. -/
theorem Received.wakesOn_iff {packet : Packet} {node' : Node}
    (h : Received node vtime packet node') (hasleep : node'.status = .asleep) :
    node.status = .asleep ∧ node.wakesOn packet = false := by
  rw [h.status_eq] at hasleep
  split at hasleep
  · cases hasleep
  · rename_i hquiet
    exact ⟨hasleep, Bool.eq_false_iff.mpr hquiet⟩

end NodeAfter

/-! ## Everything a node does -/

namespace KeptNewTimer

variable {node : Node} {w : World Front} (h : KeptNewTimer callback node.id vtime good bad I)
include h

/-- A property that timer requests keep is kept by waking, which moves the node to a flat
location. -/
theorem wp_nodeWake (loc : Loc) (hw : I w) :
    Wp (nodeWake callback node vtime loc) (fun node' w' =>
      (node'.id = node.id ∧ node'.neighTable = node.neighTable ∧
        ∃ w₁, I w₁ ∧ node'.virtloc.FlatBeyond w₁.dims) ∧ I w') bad w := by
  refine OldRadio.Second.wp_nodeWake ?_
  refine (h.timer _ _ _ (beaconDelay_le (w.rand_lt 0)) (h.skip w hw)).imp
    fun _ w' hw' virtloc hflat => ?_
  exact (h.timer _ _ _ (by decide) (h.skips _ hw')).imp
    fun _ _ hw'' => ⟨⟨rfl, rfl, w', hw', hflat⟩, hw''⟩

/-- A property that timer requests keep is kept by receiving any packet. -/
theorem wp_nodeReceive {ptr : Nat} {packet : Packet}
    (hdata : packet.data.headD 0 = packetTypeData → ∀ data : PacketData,
      data.packetType = packetTypeData → good (packetDataLayout.encode data))
    (hp : w.heap[ptr]? = some packet) (hfreed : packet.refcount = 0 → bad .packetFreed)
    (hbeacon : ∀ e, packet.data.headD 0 = packetTypeBeacon →
      beaconParse packet.data = .error e → bad e)
    (hfull : ∀ neighs, packet.data.headD 0 = packetTypeBeacon →
      beaconParse packet.data = .ok neighs → node.Records packet.data →
      recordBeacon node.id vtime node.neighTable neighs = .error .neighTableFull →
      bad .neighTableFull)
    (hlength : packet.data.headD 0 = packetTypeData →
      packet.data.length < packetDataLayout.size → bad .dataLength)
    (hflood : packet.data.headD 0 = packetTypeFlood →
      Wp (nodeReceiveFlood callback node vtime ptr) (fun _ => I) bad w)
    (hw : I w) : Wp (nodeReceive callback node vtime ptr) (fun _ => I) bad w := by
  cases hquiet : node.wakesOn packet with
  | false =>
    exact h.toKeptNew.wp_nodeReceive hdata hp hquiet hfreed hbeacon hfull hlength hflood hw
  | true =>
    refine wp_nodeReceive_wake hp hquiet hfreed fun neighs loc hparse => ?_
    refine (h.wp_nodeWake loc hw).imp fun node' w' hw' => ?_
    obtain ⟨⟨hid, htable, -⟩, hw'⟩ := hw'
    refine wp_nodeRecord _ _ (beaconParse_ne_nil hparse) (fun hrecord => ?_) fun _ _ => hw'
    rw [hid, htable] at hrecord
    simp only [Node.wakesOn, Bool.and_eq_true, beq_iff_eq, bne_iff_ne] at hquiet
    exact hfull neighs hquiet.1.1.2 hparse (fun hignored => hquiet.2 hignored.2) hrecord

/-- A property that timer requests keep is kept by a timer event, which moves the node from a flat
location to one. -/
theorem wp_nodeTimer {after : Node → Prop}
    (hafter : ∀ w₁ node', I w₁ → Timed node vtime node' →
      (ops.KeepsZero → node.virtloc.FlatBeyond w₁.dims → node'.virtloc.FlatBeyond w₁.dims) →
      after node')
    (hgood : ∀ node', after node' → good (beaconData node')) (extra : Option Nat) (hw : I w) :
    Wp (nodeTimer ops callback node vtime extra) (fun node' w' => after node' ∧ I w') bad w := by
  have hask := h.timer _ _ none (beaconDelay_le (w.rand_lt 0)) (h.skip w hw)
  rw [nodeTimer, wp_bind]
  refine (wp_nodeTimerStatus hw hask).imp fun node₁ w₁ h₁ => wp_nodeRearm fun virtloc hflat => ?_
  obtain ⟨⟨status, rfl, hstatus⟩, hw₁⟩ := h₁
  have hnode : after { node with status, virtloc } := hafter w₁ _ hw₁ ⟨rfl, hstatus, rfl⟩ hflat
  have hbeacon : Keeps I bad (nodeSendBeacon callback { node with status, virtloc } vtime) :=
    KeptNew.keeps_nodeSendBeacon h.toKeptNew (hgood _ hnode)
  refine (hbeacon _ (h.skips _ hw₁)).imp fun _ w₂ hw₂ => ?_
  exact (h.timer _ _ _ (beaconDelay_le (w₂.rand_lt 0)) (h.skip _ hw₂)).imp
    fun _ _ hw₃ => ⟨hnode, hw₃⟩

/-- A property that timer requests keep is kept by a timer event. -/
theorem keeps_nodeTimer (hgood : ∀ node', Timed node vtime node' → good (beaconData node'))
    (extra : Option Nat) : Keeps I bad (nodeTimer ops callback node vtime extra) := fun _ hw =>
  (h.wp_nodeTimer (fun _ _ _ htimed _ => htimed) hgood extra hw).imp fun _ _ hw' => hw'.2

end KeptNewTimer

/-- A property that timer requests keep is kept by `node_init`. -/
theorem KeptNewTimer.keeps_nodeInit (h : KeptNewTimer callback id vtimeZero good bad I)
    (nodeOpts : List Char) : Keeps I bad (nodeInit (some callback) id nodeOpts) := fun w hw =>
  wp_nodeInit (fun _ _ _ => h.timer _ _ _ (by decide) (h.skips _ hw))
    (fun _ _ _ => h.timer _ _ _ (beaconDelay_le (w.rand_lt _)) (h.skips _ hw))
    fun _ _ _ _ => h.skips _ hw

/-- Two properties that are kept are kept together. -/
theorem KeptTimer.and {J : World Front → Prop} (h : KeptTimer callback id vtime good bad I)
    (h' : KeptTimer callback id vtime good bad J) :
    KeptTimer callback id vtime good bad fun w => I w ∧ J w where
  skip w hw := ⟨h.skip w hw.1, h'.skip w hw.2⟩
  push w data hgood hw := ⟨h.push w data hgood hw.1, h'.push w data hgood hw.2⟩
  poke w ptr p n hp hw := ⟨h.poke w ptr p n hp hw.1, h'.poke w ptr p n hp hw.2⟩
  send w ptr p hp hgood hw := ((h.send w ptr p hp hgood hw.1).and
    (h'.send w ptr p hp hgood hw.2)).mono (fun _ _ hw' => hw') fun _ he => he.1
  freed := h.freed
  full := h.full
  bounds := h.bounds
  timer w delay extra hdelay hw := ((h.timer w delay extra hdelay hw.1).and
    (h'.timer w delay extra hdelay hw.2)).mono (fun _ _ hw' => hw') fun _ he => he.1

theorem KeptTimer.keptNewTimer (h : KeptTimer callback id vtime good bad I) :
    KeptNewTimer callback id vtime good bad I where
  toKeptNew := h.toKept.keptNew
  timer := h.timer

namespace KeptTimer

variable {node : Node} (h : KeptTimer callback node.id vtime good bad I)
include h

/-- Receiving any packet, when a packet may be sent again. -/
theorem wp_nodeReceive (hdata : ∀ data : PacketData, data.packetType = packetTypeData →
      good (packetDataLayout.encode data)) {w : World Front} {ptr : Nat} {packet : Packet}
    (hp : w.heap[ptr]? = some packet)
    (hbeacon : ∀ e, packet.data.headD 0 = packetTypeBeacon →
      beaconParse packet.data = .error e → bad e)
    (hlength : packet.data.headD 0 = packetTypeData →
      packet.data.length < packetDataLayout.size → bad .dataLength)
    (hflood : packet.data.headD 0 = packetTypeFlood →
      good packet.data ∧ ∀ data, good (packetDataLayout.encode data))
    (hw : I w) : Wp (nodeReceive callback node vtime ptr) (fun _ => I) bad w :=
  h.keptNewTimer.wp_nodeReceive (fun _ => hdata) hp (fun _ => h.freed) hbeacon
    (fun _ _ _ _ _ => h.full) hlength
    (fun htype => h.toKept.wp_nodeReceiveFlood hp (hflood htype).1 (hflood htype).2 hw) hw

end KeptTimer

end OldRadio.Second
