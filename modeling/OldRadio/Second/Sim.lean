import OldRadio.Library.Transition
import OldRadio.Second.NodeEffects
import OldRadio.Second.PriorityQueue
import OldRadio.Second.Topo

/-!
# The simulator

`sim.c`: nodes on a fixed topology, driven by the event queue. A packet sent by
a node becomes an event at each node it has a link to; a timer request becomes
an event at the node itself. The main loop pops events until none is left and,
when simulated time has passed `vtime_tick`, first runs the route tests.
-/

namespace OldRadio.Second

open Library
open Node (M)

/-- `SIM_PROP_DELAY`. -/
def simPropDelayBase : Nat := 1000 * vtimeMicros

/-- `SIM_PROP_DELAY_PERBYTE`. -/
def simPropDelayPerbyte : Nat := 1000 * vtimeMicros

/-- `SIM_PROP_DELAY_MIN`. -/
def simPropDelayMin : Nat := 1000 * vtimeMicros

/-- `SIM_PROP_DELAY_FUZZ`. -/
def simPropDelayFuzz : Nat := 1000 * vtimeMicros

/-- `SIM_TIMER_DELAY_FUZZ`. -/
def simTimerDelayFuzz : Nat := 1000 * vtimeMicros

/-- The globals behind the callback: `Queue`, `Topo` and `Eschaton`. -/
structure SimFront where
  /-- The events to come. -/
  queue : EventQueue
  /-- The network. -/
  topo : Topo
  /-- Events due at this time or later are dropped. -/
  eschaton : VTime

/-- The state of the main loop. -/
structure Sim where
  /-- Queue, packets and random outcomes. -/
  world : World SimFront
  /-- `Nodes`; a node's identity is its position. -/
  nodes : List Node
  /-- When the next route tests are run. -/
  vtimeTick : VTime

/-! ## The callback -/

/-- The delay of `sim_prop_delay` for the outcome `r` of `rand`. -/
def propDelay (length r : Nat) : Nat :=
  max simPropDelayMin (simPropDelayBase + simPropDelayPerbyte * length + r % simPropDelayFuzz)

/-- `sim_prop_delay`. -/
def simPropDelay (vtime : VTime) (packet : Packet) : M SimFront VTime := do
  let r ← rand
  return vtime.after (propDelay packet.data.length r)

/-- `sim_timer_delay`. -/
def simTimerDelay (vtime : VTime) : M SimFront VTime := do
  let r ← rand
  return vtime.after (r % simTimerDelayFuzz)

/-- `queue_insert(Queue, e)`. -/
def simInsert (e : QueueEvent) : M SimFront Unit := fun w =>
  match w.front.queue.insert e with
  | .ok queue => .ok ((), w.setFront { w.front with queue })
  | .error e => .error e

/-- One turn of the loop of `sim_callback` over the links of a node. -/
def simDeliver (vtime : VTime) (ptr : Nat) (extra : Option Nat) (t : TopoEntry) :
    M SimFront Unit := do
  let packet ← packetRead ptr
  let vtime ← simPropDelay vtime packet
  let w ← get
  if vtime < w.front.eschaton then do
    packetClone ptr
    simInsert { vtime, node := some t.dst.toNat, packet := some ptr, extra }
  else return ()

/-- `sim_callback`. -/
def simCallback : NodeCallback SimFront := fun id vtime packet? extra =>
  match packet? with
  | some ptr => do
    let w ← get
    forM (topoIter w.front.topo id) (simDeliver vtime ptr extra)
  | none => do
    let vtime ← simTimerDelay vtime
    let w ← get
    if vtime < w.front.eschaton then
      simInsert { vtime, node := some id.toNat, packet := none, extra }
    else return ()

/-! ## Route tests -/

/-- The loop of `sim_route_test_one` from its turn `i`. -/
def routeTestLoop (nodes : List Node) (node2 : NodeId) (loc : Loc) (maxstrat : Int) :
    Nat → Nat → NodeId → Except Abort Nat
  | 0, _, _ => return 0
  | turns + 1, i, hop => do
    let node ← access nodes[hop.toNat]?
    let hop := nodeRouteMfr node node2 loc maxstrat
    if hop = node2 then return i
    else if hop = nodeIdInvalid then return 0
    else routeTestLoop nodes node2 loc maxstrat turns (i + 1) hop

/-- `sim_route_test_one`: the number of hops of the route found, or 0. -/
def simRouteTestOne (nodes : List Node) (node1 node2 : NodeId) (maxstrat : Int) :
    Except Abort Nat := do
  let dest ← access nodes[node2.toNat]?
  routeTestLoop nodes node2 dest.virtloc maxstrat 99 1 node1

/-- `sim_route_test`: the numbers printed for each node. -/
def simRouteTest (nodes : List Node) : Except Abort (List (List Nat)) :=
  (List.range' 1 (nodes.length - 1)).mapM fun i => do
    let id := UInt16.ofNat i
    let h11 ← simRouteTestOne nodes id 0 1
    let h12 ← simRouteTestOne nodes 0 id 1
    let h21 ← simRouteTestOne nodes id 0 2
    let h22 ← simRouteTestOne nodes 0 id 2
    return [h11, h12, h21, h22]

/-! ## The main loop -/

/-- The part of the main loop that runs the route tests once time has passed `vtime_tick`. -/
def simTick (nodes : List Node) (vtime vtimeTick : VTime) : M SimFront VTime :=
  if vtimeTick < vtime then do
    let _ ← MonadExcept.ofExcept (simRouteTest nodes)
    forM nodes fun node => nodeRouteTest simCallback node vtimeTick
    return vtimeTick.after vtimeSeconds
  else return vtimeTick

variable {F : Type} (ops : FloatOps F)

/-- The part of the main loop that hands the event to its node. -/
def simHandle (node : Node) (e : QueueEvent) : M SimFront Node :=
  match e.packet with
  | some ptr => do
    let node ← nodeReceive simCallback node e.vtime ptr
    packetFree ptr
    return node
  | none => nodeTimer ops simCallback node e.vtime e.extra

/-- Handing the event to the node it points to. -/
def simDispatch (nodes : List Node) (e : QueueEvent) : M SimFront (List Node) := do
  let i ← MonadExcept.ofExcept (access e.node)
  let node ← MonadExcept.ofExcept (access nodes[i]?)
  let node ← simHandle ops node e
  return nodes.set i node

/-- One turn of the main loop: the event it handled and the state after it, or nothing when the
queue is empty. -/
def simStep (s : Sim) : Except Abort (Option (QueueEvent × Sim)) := do
  let (e, queue) ← s.world.front.queue.pop
  if e.vtime = vtimeInf then return none
  else
    let world := s.world.setFront { s.world.front with queue }
    let (vtimeTick, world) ← simTick s.nodes e.vtime s.vtimeTick world
    let (nodes, world) ← simDispatch ops s.nodes e world
    return some (e, { world, nodes, vtimeTick })

/-- A turn of the main loop that handles an event. -/
def SimStep (s : Sim) (e : QueueEvent) (s' : Sim) : Prop := simStep ops s = .ok (some (e, s'))

/-- At most `n` turns of the main loop, as long as `ok` holds of the state and the event it handled:
the events and the state after them. -/
def simRun (ok : Sim → QueueEvent → Bool) : Nat → Sim → Except Abort (List QueueEvent × Sim)
  | 0, s => return ([], s)
  | n + 1, s => do
    match ← simStep ops s with
    | none => return ([], s)
    | some (e, next) =>
      if ok s e then do
        let (events, last) ← simRun ok n next
        return (e :: events, last)
      else return ([], s)

/-- The arguments of the simulator. -/
structure SimArgs where
  /-- The links of the topology file, in order. -/
  links : List TopoEntry
  /-- The timeout in seconds, if given. -/
  timeout : Option Int32
  /-- The number of dimensions, if given. -/
  dims : Option Int32
  /-- The node options. -/
  nodeOpts : List Char

/-- Two nodes that hear each other, both awake from the start. -/
def twoNodes : SimArgs where
  links := [{ src := 0, dst := 1, prob := 0 }, { src := 1, dst := 0, prob := 0 }]
  timeout := none
  dims := none
  nodeOpts := ['A']

/-- `Eschaton`. -/
def simEschaton : Option Int32 → VTime
  | none => vtimeInf
  | some timeout => (timeout.toInt64 * Int64.ofNat vtimeSeconds).toUInt64

/-- `Loc_dims`. -/
def simDims : Option Int32 → Except Abort Nat
  | none => return 3
  | some dims => locSetDims dims

/-- The loop of `main` that initialises the nodes. -/
def simNodes (nodeOpts : List Char) (n : Nat) : M SimFront (List Node) :=
  (List.range n).mapM fun i => nodeInit (some simCallback) (UInt16.ofNat i) nodeOpts

/-- The surroundings before any node is initialised. -/
def simBlank (topo : Topo) (dims : Nat) (eschaton : VTime) (tape : Nat → Fin randRange)
    (uninit : Nat → List UInt8) : World SimFront :=
  { tape, drawn := 0, heap := [], dims, uninit, front := { queue := .new, topo, eschaton } }

/-- `main` up to its loop. -/
def simStart (args : SimArgs) (tape : Nat → Fin randRange) (uninit : Nat → List UInt8) :
    Except Abort Sim := do
  let topo ← topoRead args.links
  let dims ← simDims args.dims
  let (nodes, world) ← simNodes args.nodeOpts (topo.maxId.toNat + 1)
    (simBlank topo dims (simEschaton args.timeout) tape uninit)
  return { world, nodes, vtimeTick := vtimeZero }

/-- The states of the main loop, between two events. -/
def SimReachable (args : SimArgs) (tape : Nat → Fin randRange) (uninit : Nat → List UInt8)
    (s : Sim) : Prop :=
  ∃ s₀ events, simStart args tape uninit = .ok s₀ ∧ Run (SimStep ops) s₀ events s

theorem simRun_run {ok : Sim → QueueEvent → Bool} {n : Nat} {s s' : Sim}
    {events : List QueueEvent} (h : simRun ops ok n s = .ok (events, s')) :
    Run (fun s e s' => SimStep ops s e s' ∧ ok s e = true) s events s' := by
  induction n generalizing s events with
  | zero =>
    cases h
    exact .nil _
  | succ n ih =>
    rw [simRun] at h
    obtain ⟨next?, hstep, h⟩ := bind_eq_ok h
    cases next? with
    | none =>
      cases h
      exact .nil _
    | some next =>
      obtain ⟨e, next⟩ := next
      dsimp only at h
      split at h
      · rename_i hok
        obtain ⟨⟨rest, last⟩, hrun, h⟩ := bind_eq_ok h
        cases h
        exact .cons ⟨hstep, hok⟩ (ih hrun)
      · cases h
        exact .nil _

/-- An executed run reaches its last state. -/
theorem SimReachable.of_simRun {args : SimArgs} {tape : Nat → Fin randRange}
    {uninit : Nat → List UInt8} {s₀ s : Sim} {ok : Sim → QueueEvent → Bool} {n : Nat}
    {events : List QueueEvent} (hstart : simStart args tape uninit = .ok s₀)
    (hrun : simRun ops ok n s₀ = .ok (events, s)) : SimReachable ops args tape uninit s :=
  ⟨s₀, events, hstart, (simRun_run ops hrun).mono fun _ _ _ h => h.1⟩

end OldRadio.Second
