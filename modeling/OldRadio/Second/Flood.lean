import OldRadio.Library.Flooding
import OldRadio.Second.Deliveries

/-!
# A flood in the simulator

The answer to a flood is unfinished in `node.c`; without it `node_receive`
passes a flood on and does nothing else. One flood packet is handed to one node,
among whatever else the simulator does. It is never copied: all its events point
to the packet that was handed in, and no other packet is a flood.
-/

namespace OldRadio.Second

open Library
open Node (M)

/-! ## The simulator -/

/-- `node_receive`, where `node_receive_flood` is its call of `node_send_flood`. -/
def floodReceive {Front : Type} (callback : NodeCallback Front) (node : Node) (vtime : VTime)
    (ptr : Nat) : M Front Node := do
  let packet ← packetRead ptr
  if packet.data.headD 0 = packetTypeFlood then nodeSendFlood callback node vtime ptr
  else nodeReceive callback node vtime ptr

section Sim

variable {F : Type} (ops : FloatOps F)

/-- The part of the main loop that hands the event to its node. -/
def floodHandle (node : Node) (e : QueueEvent) : M SimFront Node :=
  match e.packet with
  | some ptr => do
    let node ← floodReceive simCallback node e.vtime ptr
    packetFree ptr
    return node
  | none => nodeTimer ops simCallback node e.vtime e.extra

/-- Handing the event to the node it points to. -/
def floodDispatch (nodes : List Node) (e : QueueEvent) : M SimFront (List Node) := do
  let i ← MonadExcept.ofExcept (access e.node)
  let node ← MonadExcept.ofExcept (access nodes[i]?)
  let node ← floodHandle ops node e
  return nodes.set i node

/-- An event, and whether its node broadcasts a flood again. -/
structure FloodEvent where
  /-- The event. -/
  event : QueueEvent
  /-- The node passes on a flood. -/
  rebroadcast : Bool
  deriving DecidableEq

/-- The event carries a flood to a node that passes it on. -/
def Sim.rebroadcasts (s : Sim) (e : QueueEvent) : Bool :=
  match e.packet.bind (s.world.heap[·]?), e.node.bind (s.nodes[·]?) with
  | some packet, some node =>
    packet.data.headD 0 = packetTypeFlood && node.floodTimeout < e.vtime
  | _, _ => false

/-- One turn of the main loop. -/
def floodStep (s : Sim) : Except Abort (Option (FloodEvent × Sim)) := do
  let (e, queue) ← s.world.front.queue.pop
  if e.vtime = vtimeInf then return none
  else
    let world := s.world.setFront { s.world.front with queue }
    let (vtimeTick, world) ← simTick s.nodes e.vtime s.vtimeTick world
    let (nodes, world) ← floodDispatch ops s.nodes e world
    return some ({ event := e, rebroadcast := s.rebroadcasts e }, { world, nodes, vtimeTick })

/-- A turn of the main loop that handles an event. -/
def FloodStep (s : Sim) (l : FloodEvent) (s' : Sim) : Prop := floodStep ops s = .ok (some (l, s'))

/-- A packet is allocated, and handed to a node at a time. -/
def floodInject (source : NodeId) (vtime : VTime) (data : List UInt8) : M SimFront Unit := do
  let ptr ← packetAlloc data
  simInsert { vtime, node := some source.toNat, packet := some ptr, extra := none }

/-- `main` up to its loop, with a packet for a node. -/
def floodStart (args : SimArgs) (tape : Nat → Fin randRange) (uninit : Nat → List UInt8)
    (source : NodeId) (vtime : VTime) (data : List UInt8) : Except Abort Sim := do
  let s ← simStart args tape uninit
  let ((), world) ← floodInject source vtime data s.world
  return { s with world }

end Sim

/-- How often a node broadcasts a flood. -/
def rebroadcasts (id : NodeId) (events : List FloodEvent) : Nat :=
  events.countP fun l => l.event.node = some id.toNat ∧ l.rebroadcast = true

/-- The net on which a packet of `length` bytes spreads. -/
def floodNet (args : SimArgs) (length : Nat) : FloodNet NodeId where
  link := args.Hears
  delay d := ∃ r < randRange, d = propDelay length r
  holdoff := nodeFloodTimeout
  deadline := (simEschaton args.timeout).toNat

/-- The clock is far enough from its end that neither the hold-off nor the delay of a packet of
`length` bytes wraps. -/
def FloodRoom (length : Nat) (vtime : VTime) : Prop :=
  vtime.toNat + nodeFloodTimeout < 2 ^ 64 ∧
    vtime.toNat + propDelay length (simPropDelayFuzz - 1) < 2 ^ 64

instance (length : Nat) (vtime : VTime) : Decidable (FloodRoom length vtime) := by
  unfold FloodRoom
  infer_instance

theorem FloodRoom.delay {length : Nat} {vtime : VTime} (h : FloodRoom length vtime) (r : Nat) :
    vtime.toNat + propDelay length r < 2 ^ 64 := by
  have hroom := h.2
  have hmod : r % simPropDelayFuzz ≤ simPropDelayFuzz - 1 :=
    Nat.le_pred_of_lt (Nat.mod_lt r (by decide))
  have hlast : (simPropDelayFuzz - 1) % simPropDelayFuzz = simPropDelayFuzz - 1 := by decide
  unfold propDelay at hroom ⊢
  omega

end OldRadio.Second
