import OldRadio.Second.NodeEffects
import OldRadio.Second.RadioLink

/-!
# The serial program

`serial.c`: one node behind a serial port. Its front end holds a single timer
request. The main loop listens for packets until the timer is due and hands them
to the node, then runs the node's timer. Every reading of the clock is an input,
and nothing is asked of how readings follow each other.
-/

namespace OldRadio.Second

open Library
open Node (M)

/-- The globals behind the callback: `Timer`, `Extra`, and what went out through `Radio`. -/
structure SerialFront where
  /-- When the node's timer is due. -/
  timer : VTime
  /-- The argument of the timer. -/
  extra : Option Nat
  /-- The frames that went out, in order. -/
  sent : List (List UInt8)

/-- The state of the main loop. -/
structure Serial where
  /-- Timer, packets and random outcomes. -/
  world : World SerialFront
  /-- `Node`. -/
  node : Node
  /-- The port behind `Radio`. -/
  port : Port
  /-- The last reading of the clock. -/
  vtime : VTime
  /-- When the program ends. -/
  eschaton : VTime
  /-- Whether the outer loop goes on. -/
  running : Bool

/-- The readings of the clock in a turn. -/
structure SerialClock where
  /-- When a packet is handed to the node. -/
  received : VTime
  /-- At the end of the turn. -/
  ended : VTime

/-! ## The callback -/

/-- `serial_callback`. `radio_send` returns when the whole frame has gone out. -/
def serialCallback : NodeCallback SerialFront := fun _ vtime packet? extra =>
  match packet? with
  | some ptr => do
    let packet ← packetRead ptr
    let frame ← MonadExcept.ofExcept (radioFrame packet)
    modify fun w => w.setFront { w.front with sent := w.front.sent ++ [frame] }
  | none => do
    let w ← get
    if vtime < w.front.timer then
      modify fun w => w.setFront { w.front with timer := vtime, extra }
    else throw .timerOrder

/-! ## The main loop -/

/-- `radio_wait` and, if that heard a start mark, `radio_recv`. -/
def radioListen (timeout : VTime) (port : Port) : Except Abort (Option Packet) × Port :=
  let (heard, port) := radioWait timeout port
  if heard then radioRecv timeout port else (.ok none, port)

/-- The part of the inner loop that hands a packet to the node. -/
def serialReceive (node : Node) (vtime : VTime) (packet : Packet) : M SerialFront Node := do
  let ptr ← packetHold packet
  let node ← nodeReceive serialCallback node vtime ptr
  packetFree ptr
  return node

namespace Serial

/-- Whether the next turn is one of the inner loop. -/
def listens (s : Serial) : Bool :=
  decide (s.vtime < s.world.front.timer) && decide (s.vtime < s.eschaton)

/-- How long the inner loop listens. -/
def timeout (s : Serial) : VTime :=
  if s.world.front.timer < s.eschaton then s.world.front.timer else s.eschaton

end Serial

/-- A turn of the inner loop. -/
def serialListen (s : Serial) (clock : SerialClock) : Except Abort Serial := do
  let port := (radioListen s.timeout s.port).2
  match ← (radioListen s.timeout s.port).1 with
  | some packet => do
    let (node, world) ← serialReceive s.node clock.received packet s.world
    return { s with world, node, port, vtime := clock.ended }
  | none => return { s with port, vtime := clock.ended }

variable {F : Type} (ops : FloatOps F)

/-- The part of the outer loop that runs the timer. -/
def serialTimer (node : Node) (vtime : VTime) : M SerialFront Node := do
  let w ← get
  modify fun w => w.setFront { w.front with timer := vtimeInf }
  nodeTimer ops serialCallback node vtime w.front.extra

/-- A turn of the outer loop, behind the inner one. -/
def serialElapse (s : Serial) (clock : SerialClock) : Except Abort Serial :=
  if s.world.front.timer ≤ s.vtime then do
    let (node, world) ← serialTimer ops s.node s.vtime s.world
    return { s with world, node, vtime := clock.ended, running := clock.ended < s.eschaton }
  else return { s with vtime := clock.ended, running := clock.ended < s.eschaton }

/-- A turn of the main loop. -/
def serialStep (s : Serial) (clock : SerialClock) : Except Abort Serial :=
  if s.listens then serialListen s clock else serialElapse ops s clock

/-- The main loop over the readings of the clock. -/
def serialRun : List SerialClock → Serial → Except Abort Serial
  | [], s => return s
  | clock :: clocks, s =>
    if s.running then do
      let next ← serialStep ops s clock
      serialRun clocks next
    else return s

/-- The arguments of the program and what it finds. -/
structure SerialArgs where
  /-- The identity of the node. -/
  id : NodeId
  /-- The timeout in seconds. -/
  timeout : Int32
  /-- The port. -/
  port : Port
  /-- The first reading of the clock. -/
  start : VTime

/-- The surroundings before the node is made. -/
def serialBlank (tape : Nat → Fin randRange) (uninit : Nat → List UInt8) : World SerialFront :=
  { tape, drawn := 0, heap := [], dims := 3, uninit
    front := { timer := vtimeInf, extra := none, sent := [] } }

/-- `main` up to its loop: the node is made before a callback is registered, and node 0 has a timer
to kick things off. -/
def serialStart (args : SerialArgs) (tape : Nat → Fin randRange) (uninit : Nat → List UInt8) :
    Except Abort Serial := do
  let (node, world) ← nodeInit none args.id [] (serialBlank tape uninit)
  let eschaton := args.start + (args.timeout.toInt64 * Int64.ofNat vtimeSeconds).toUInt64
  let timer := if node.id = 0 then args.start else world.front.timer
  return { world := world.setFront { world.front with timer }, node, port := args.port
           vtime := args.start, eschaton, running := args.start < eschaton }

/-- `main`. -/
def serialMain (args : SerialArgs) (tape : Nat → Fin randRange) (uninit : Nat → List UInt8)
    (clocks : List SerialClock) : Except Abort Serial := do
  let s ← serialStart args tape uninit
  serialRun ops clocks s

/-! ## What the callback does -/

section Callback

variable {good : Unit → World SerialFront → Prop} {bad : Abort → Prop} {w : World SerialFront}
  {id : NodeId} {vtime : VTime}

/-- A timer request replaces the pending one, which must be later. -/
theorem wp_serialCallback_timer {extra : Option Nat} :
    Wp (serialCallback id vtime none extra) good bad w ↔
      (vtime < w.front.timer → good () (w.setFront { w.front with timer := vtime, extra })) ∧
      (¬ vtime < w.front.timer → bad .timerOrder) := by
  rw [serialCallback, wp_bind, wp_get, wp_ite, wp_modify, wp_throw]

/-- A packet that is too long for a frame is the only one that is not sent. -/
theorem radioFrame_error {packet : Packet} {e : Abort} (h : radioFrame packet = .error e) :
    e = .radioMtu := by
  by_cases hmtu : packet.data.length ≤ radioMtu
  · rw [radioFrame_eq hmtu] at h
    cases h
  · rw [radioFrame, if_pos (Nat.lt_of_not_le hmtu)] at h
    cases h
    rfl

/-- Sending a packet changes neither the timer nor the packets. -/
theorem wp_serialCallback_send {ptr : Nat} {packet : Packet} {extra : Option Nat}
    (hp : w.heap[ptr]? = some packet) (hfreed : packet.refcount = 0 → bad .packetFreed)
    (hmtu : radioMtu < packet.data.length → bad .radioMtu)
    (h : ∀ sent, good () (w.setFront { w.front with sent })) :
    Wp (serialCallback id vtime (some ptr) extra) good bad w := by
  rw [serialCallback, wp_bind]
  refine (wp_packetRead_iff hp).mpr ⟨hfreed, fun _ => ?_⟩
  rw [wp_bind]
  refine wp_ofExcept (fun frame _ => ?_) fun e he => ?_
  · rw [wp_modify]
    exact h _
  · obtain rfl := radioFrame_error he
    refine hmtu (Nat.lt_of_not_le fun hle => ?_)
    rw [radioFrame_eq hle] at he
    cases he

/-- A packet the node has made is sent. -/
theorem wp_sendNew_serial {data : List UInt8} (hne : data ≠ []) (hmtu : data.length ≤ radioMtu) :
    Wp (do
      let ptr ← packetAlloc data
      serialCallback id vtime (some ptr) none
      packetFree ptr)
      (fun _ w' => w'.front.timer = w.front.timer ∧ ∀ k, w'.rand k = w.rand k)
      (fun _ => False) w := by
  have hp := w.push_heap { refcount := 1, data }
  rw [wp_bind, wp_packetAlloc hne, wp_bind]
  refine wp_serialCallback_send hp (fun hfreed => absurd hfreed Nat.one_ne_zero)
    (fun hlong => absurd hmtu (Nat.not_le.mpr hlong)) fun sent => ?_
  have hheld : ((w.push { refcount := 1, data }).setFront
      { w.front with sent }).heap[w.heap.length]? = some { refcount := 1, data } := hp
  exact (wp_packetFree_iff hheld).mpr
    ⟨fun hfreed => absurd hfreed Nat.one_ne_zero, fun _ => ⟨rfl, fun _ => rfl⟩⟩

/-- A received packet is handed to the node and freed. -/
theorem wp_serialReceive {node : Node} {packet : Packet} {after : Node → World SerialFront → Prop} :
    Wp (serialReceive node vtime packet) after bad w ↔
      Wp (nodeReceive serialCallback node vtime w.heap.length)
        (fun node' => Wp (packetFree w.heap.length) (fun _ => after node') bad) bad
        (w.push packet) := by
  rw [serialReceive, wp_bind, wp_packetHold, wp_bind]
  refine ⟨fun h => h.imp fun node' w' hw' => ?_, fun h => h.imp fun node' w' hw' => ?_⟩
  · rw [wp_bind] at hw'
    exact hw'
  · rw [wp_bind]
    exact hw'

/-- A property of nothing is kept by the serial program, which may stop at a packet that is too
long to be sent. -/
theorem serialKept (hfreed : bad .packetFreed) (hfull : bad .neighTableFull)
    (hbounds : bad .outOfBounds) (hmtu : bad .radioMtu) :
    Kept serialCallback id vtime (fun _ => True) bad (fun _ => True) where
  skip _ h := h
  push _ _ _ h := h
  poke _ _ _ _ _ h := h
  send _ _ _ hp _ _ :=
    wp_serialCallback_send hp (fun _ => hfreed) (fun _ => hmtu) fun _ => trivial
  freed := hfreed
  full := hfull
  bounds := hbounds

/-- Timer requests too may stop the program, at their order. -/
theorem serialKeptTimer {good : List UInt8 → Prop} {I : World SerialFront → Prop}
    (h : Kept serialCallback id vtime good bad I) (horder : bad .timerOrder)
    (hfront : ∀ w front, I w → I (w.setFront front)) :
    KeptTimer serialCallback id vtime good bad I where
  toKept := h
  timer _ _ _ _ hw := wp_serialCallback_timer.mpr ⟨fun _ => hfront _ _ hw, fun _ => horder⟩

end Callback

/-! ## What the radio gives -/

/-- Decoding a frame stops at an empty payload only, and makes packets held once. -/
theorem decodeFrame_cases (recv : List UInt8) :
    decodeFrame recv = .error .packetLength ∨ decodeFrame recv = .ok none ∨
      ∃ packet, decodeFrame recv = .ok (some packet) ∧ packet.refcount = 1 := by
  rw [decodeFrame]
  split
  · by_cases hnil : (packetBytes recv).take ((packetBytes recv).length - crc16Len) = []
    · rw [hnil]
      exact Or.inl rfl
    · rw [packetNew_of_ne_nil hnil]
      exact Or.inr (Or.inr ⟨_, rfl, rfl⟩)
  · exact Or.inr (Or.inl rfl)

/-- So does listening. -/
theorem radioListen_cases (timeout : VTime) (port : Port) :
    (radioListen timeout port).1 = .error .packetLength ∨ (radioListen timeout port).1 = .ok none ∨
      ∃ packet, (radioListen timeout port).1 = .ok (some packet) ∧ packet.refcount = 1 := by
  unfold radioListen
  rcases radioWait timeout port with ⟨heard, port'⟩
  cases heard with
  | false => exact Or.inr (Or.inl rfl)
  | true =>
    dsimp only
    rw [if_pos rfl, radioRecv]
    rcases recvLoop timeout (maxFrame + 1) [] port' with ⟨_ | recv, port''⟩
    · exact Or.inr (Or.inl rfl)
    · exact decodeFrame_cases recv

end OldRadio.Second
