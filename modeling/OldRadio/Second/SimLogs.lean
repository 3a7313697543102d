import OldRadio.Second.NodeFronts
import OldRadio.Second.SimEffects

/-!
# The simulator with a log

The same nodes and the same main loop, with a log beside the simulator and a
callback that does to the simulator what `sim_callback` does, and may write
something down. The main loop may do so too, before each route test and before
each event. The log follows the run and does not change it: leaving it out gives
the simulator back, turn by turn, so what holds of the log holds of its runs.
-/

namespace OldRadio.Second

open Library
open Node (M)

/-- The front end of the simulator with a log. -/
structure Logged (Log : Type) where
  /-- The simulator. -/
  sim : SimFront
  /-- What is written down so far. -/
  log : Log

variable {F Log : Type}

/-- A program of the simulator leaves the log as it is. -/
def besideLog {α : Type} (m : M SimFront α) : M (Logged Log) α := fun w =>
  (m (w.mapFront Logged.sim)).map fun r => (r.1, r.2.mapFront fun sim => { w.front with sim })

/-- Writing something down. -/
def writeLog (write : Log → Log) : M (Logged Log) Unit :=
  modify fun w => w.setFront { w.front with log := write w.front.log }

section Programs

variable {α : Type} {bad : Abort → Prop} {w : World (Logged Log)}

theorem wp_besideLog {m : M SimFront α} {good : α → World (Logged Log) → Prop} :
    Wp (besideLog m) good bad w ↔
      Wp m (fun a w' => good a (w'.mapFront fun sim => { w.front with sim })) bad
        (w.mapFront Logged.sim) := by
  rw [Wp, Wp, besideLog]
  cases m (w.mapFront Logged.sim) with
  | ok r => rfl
  | error e => rfl

@[simp] theorem wp_writeLog {write : Log → Log} {good : Unit → World (Logged Log) → Prop} :
    Wp (writeLog write) good bad w ↔
      good () (w.setFront { w.front with log := write w.front.log }) := Iff.rfl

theorem projects_besideLog (m : M SimFront α) :
    Projects (World.mapFront (@Logged.sim Log)) (besideLog m) m := by
  intro w
  rw [besideLog]
  cases m (w.mapFront Logged.sim) with
  | ok r => rfl
  | error e => rfl

/-- The simulator does not see what is written down first. -/
theorem projects_writeLog {write : Log → Log} {m : M (Logged Log) α} {m' : M SimFront α}
    (h : Projects (World.mapFront Logged.sim) m m') :
    Projects (World.mapFront Logged.sim) (writeLog write >>= fun _ => m) m' := fun w =>
  h (w.setFront { w.front with log := write w.front.log })

end Programs

/-- A callback that does to the simulator what `sim_callback` does, and what the main loop writes
down. -/
structure Logger (Log : Type) where
  /-- The callback. -/
  callback : NodeCallback (Logged Log)
  /-- What it does to the simulator. -/
  projects : ∀ id vtime packet? extra,
    Projects (World.mapFront Logged.sim) (callback id vtime packet? extra)
      (simCallback id vtime packet? extra)
  /-- What is written down before a node runs a route test, in the tick of a number. -/
  beforeTest : Nat → NodeId → Log → Log
  /-- What is written down before an event is handed to its node. -/
  beforeEvent : QueueEvent → Log → Log

/-- The state of the main loop with a log. -/
structure LoggedSim (Log : Type) where
  /-- Queue, packets, random outcomes and the log. -/
  world : World (Logged Log)
  /-- `Nodes`. -/
  nodes : List Node
  /-- When the next route tests are run. -/
  vtimeTick : VTime
  /-- Number of ticks run. -/
  ticks : Nat

/-- The simulator without the log. -/
def LoggedSim.erase (t : LoggedSim Log) : Sim :=
  { world := t.world.mapFront Logged.sim, nodes := t.nodes, vtimeTick := t.vtimeTick }

/-- What is written down so far. -/
def LoggedSim.log (t : LoggedSim Log) : Log := t.world.front.log

/-- The front end with another queue. -/
def Logged.setQueue (front : Logged Log) (queue : EventQueue) : Logged Log :=
  { front with sim := { front.sim with queue } }

/-- The events to come. -/
def Logged.pending (front : Logged Log) : Multiset QueueEvent := front.sim.queue.pending

/-- A world with a log beside it. -/
def loggedWorld (log : Log) (w : World SimFront) : World (Logged Log) :=
  w.mapFront fun sim => { sim, log }

namespace Logger

variable (L : Logger Log) (ops : FloatOps F)

/-! ## The main loop -/

/-- The part of the main loop that runs the route tests, as tick number `ticks`. -/
def tick (ticks : Nat) (nodes : List Node) (vtime vtimeTick : VTime) : M (Logged Log) VTime :=
  if vtimeTick < vtime then do
    let _ ← MonadExcept.ofExcept (simRouteTest nodes)
    forM nodes fun node => do
      writeLog (L.beforeTest ticks node.id)
      nodeRouteTest L.callback node vtimeTick
    return vtimeTick.after vtimeSeconds
  else return vtimeTick

/-- The part of the main loop that hands the event to its node. -/
def handle (node : Node) (e : QueueEvent) : M (Logged Log) Node := do
  writeLog (L.beforeEvent e)
  match e.packet with
  | some ptr => do
    let node ← nodeReceive L.callback node e.vtime ptr
    packetFree ptr
    return node
  | none => nodeTimer ops L.callback node e.vtime e.extra

/-- Handing the event to the node it points to. -/
def dispatch (nodes : List Node) (e : QueueEvent) : M (Logged Log) (List Node) := do
  let i ← MonadExcept.ofExcept (access e.node)
  let node ← MonadExcept.ofExcept (access nodes[i]?)
  let node ← L.handle ops node e
  return nodes.set i node

/-- One turn of the main loop. -/
def step (t : LoggedSim Log) : Except Abort (Option (QueueEvent × LoggedSim Log)) := do
  let (e, queue) ← t.world.front.sim.queue.pop
  if e.vtime = vtimeInf then return none
  else
    let world := t.world.setFront (t.world.front.setQueue queue)
    let (vtimeTick, world) ← L.tick t.ticks t.nodes e.vtime t.vtimeTick world
    let (nodes, world) ← L.dispatch ops t.nodes e world
    let ticks := if t.vtimeTick < e.vtime then t.ticks + 1 else t.ticks
    return some (e, { world, nodes, vtimeTick, ticks })

/-- A turn of the main loop that handles an event. -/
def Step (t : LoggedSim Log) (e : QueueEvent) (t' : LoggedSim Log) : Prop :=
  L.step ops t = .ok (some (e, t'))

/-- The loop of `main` that initialises the nodes. -/
def nodes (nodeOpts : List Char) (n : Nat) : M (Logged Log) (List Node) :=
  (List.range n).mapM fun i => nodeInit (some L.callback) (UInt16.ofNat i) nodeOpts

/-- `main` up to its loop, from a log. -/
def start (log : Log) (args : SimArgs) (tape : Nat → Fin randRange) (uninit : Nat → List UInt8) :
    Except Abort (LoggedSim Log) := do
  let topo ← topoRead args.links
  let dims ← simDims args.dims
  let (nodes, world) ← L.nodes args.nodeOpts (topo.maxId.toNat + 1)
    (loggedWorld log (simBlank topo dims (simEschaton args.timeout) tape uninit))
  return { world, nodes, vtimeTick := vtimeZero, ticks := 0 }

/-- A run of the simulator with the log. -/
def Runs (log : Log) (args : SimArgs) (tape : Nat → Fin randRange) (uninit : Nat → List UInt8)
    (events : List QueueEvent) (t : LoggedSim Log) : Prop :=
  ∃ t₀, L.start log args tape uninit = .ok t₀ ∧ Run (L.Step ops) t₀ events t

/-! ## Leaving the log out -/

theorem projects_tick (ticks : Nat) (nodes : List Node) (vtime vtimeTick : VTime) :
    Projects (World.mapFront Logged.sim) (L.tick ticks nodes vtime vtimeTick)
      (simTick nodes vtime vtimeTick) := by
  refine Projects.ite ?_ (projects_pure vtimeTick)
  refine (projects_ofExcept _).bind fun _ => ?_
  refine (projects_forM (fun node => ?_) nodes).bind fun _ => projects_pure _
  exact projects_writeLog (projects_nodeRouteTest L.projects node vtimeTick)

theorem projects_handle (node : Node) (e : QueueEvent) :
    Projects (World.mapFront Logged.sim) (L.handle ops node e) (simHandle ops node e) := by
  unfold handle simHandle
  refine projects_writeLog ?_
  cases e.packet with
  | none => exact projects_nodeTimer L.projects _ _ _
  | some ptr =>
    exact (projects_nodeReceive L.projects _ _ _).bind fun node =>
      (projects_packetFree ptr).bind fun _ => projects_pure node

theorem projects_dispatch (nodes : List Node) (e : QueueEvent) :
    Projects (World.mapFront Logged.sim) (L.dispatch ops nodes e) (simDispatch ops nodes e) :=
  (projects_ofExcept _).bind fun _ => (projects_ofExcept _).bind fun node =>
    (L.projects_handle ops node e).bind fun _ => projects_pure _

end Logger

section Erase

variable {ops : FloatOps F}

/-- A turn of the simulator is a turn with the log. -/
theorem SimStep.logged (L : Logger Log) {t : LoggedSim Log} {e : QueueEvent} {s' : Sim}
    (h : SimStep ops t.erase e s') : ∃ t', L.Step ops t e t' ∧ t'.erase = s' := by
  unfold SimStep simStep at h
  obtain ⟨⟨f, queue⟩, hpop, h⟩ := bind_eq_ok h
  dsimp only at h
  split at h
  · cases h
  · rename_i hinf
    obtain ⟨⟨vtimeTick, tested⟩, htick, h⟩ := bind_eq_ok h
    obtain ⟨⟨nodes, world⟩, hdispatch, h⟩ := bind_eq_ok h
    cases h
    obtain ⟨tested', hticked, rfl⟩ := (L.projects_tick t.ticks _ _ _).of_ok
      (s := t.world.setFront (t.world.front.setQueue queue)) htick
    obtain ⟨world', hdispatched, rfl⟩ := (L.projects_dispatch ops _ _).of_ok hdispatch
    refine ⟨{ world := world', nodes, vtimeTick
              ticks := if t.vtimeTick < e.vtime then t.ticks + 1 else t.ticks }, ?_, rfl⟩
    unfold Logger.Step Logger.step
    rw [show t.world.front.sim.queue.pop = _ from hpop, ok_bind]
    dsimp only
    have htickLogged : L.tick t.ticks t.nodes e.vtime t.vtimeTick
        (t.world.setFront (t.world.front.setQueue queue)) = .ok (vtimeTick, tested') := hticked
    have hdispatchLogged : L.dispatch ops t.nodes e tested' = .ok (nodes, world') := hdispatched
    rw [if_neg hinf, htickLogged, ok_bind]
    dsimp only
    rw [hdispatchLogged, ok_bind]
    rfl

/-- The start of the simulator is the start with the log. -/
theorem simStart_logged (L : Logger Log) (log : Log) {args : SimArgs}
    {tape : Nat → Fin randRange} {uninit : Nat → List UInt8} {s : Sim}
    (h : simStart args tape uninit = .ok s) :
    ∃ t, L.start log args tape uninit = .ok t ∧ t.erase = s := by
  unfold simStart at h
  obtain ⟨topo, htopo, h⟩ := bind_eq_ok h
  obtain ⟨dims, hdims, h⟩ := bind_eq_ok h
  obtain ⟨⟨nodes, world⟩, hnodes, h⟩ := bind_eq_ok h
  cases h
  have hproject : Projects (World.mapFront Logged.sim)
      (L.nodes args.nodeOpts (topo.maxId.toNat + 1))
      (simNodes args.nodeOpts (topo.maxId.toNat + 1)) :=
    projects_mapM (fun _ => projects_nodeInit L.projects _ _) _
  obtain ⟨world', hnodes', rfl⟩ := hproject.of_ok
    (s := loggedWorld log (simBlank topo dims (simEschaton args.timeout) tape uninit)) hnodes
  refine ⟨{ world := world', nodes, vtimeTick := vtimeZero, ticks := 0 }, ?_, rfl⟩
  unfold Logger.start
  rw [htopo, ok_bind, hdims, ok_bind]
  dsimp only
  rw [hnodes', ok_bind]
  rfl

/-- Every run of the simulator is a run with the log, with the log left out. -/
theorem simRun_logged (L : Logger Log) (log : Log) {args : SimArgs} {tape : Nat → Fin randRange}
    {uninit : Nat → List UInt8} {s₀ s : Sim} {events : List QueueEvent}
    (hstart : simStart args tape uninit = .ok s₀) (hrun : Run (SimStep ops) s₀ events s) :
    ∃ t, L.Runs ops log args tape uninit events t ∧ t.erase = s := by
  obtain ⟨t₀, hstart', rfl⟩ := simStart_logged L log hstart
  obtain ⟨t, hrun', ht⟩ := hrun.lift fun _ _ _ hstep => hstep.logged L
  exact ⟨t, ⟨t₀, hstart', hrun'⟩, ht⟩

end Erase

/-! ## One turn -/

namespace Logger

variable {L : Logger Log} {ops : FloatOps F}

/-- What a turn with the log did. -/
structure Turn (L : Logger Log) (ops : FloatOps F) (t : LoggedSim Log) (e : QueueEvent)
    (t' : LoggedSim Log) : Prop where
  /-- It took the event out of the queue, ran the route tests and handed the event to its node. -/
  ran : ∃ (queue : EventQueue) (tested world : World (Logged Log)) (vtimeTick : VTime) (i : Nat)
      (node node' : Node),
    t.world.front.pending = e ::ₘ queue.pending ∧
    L.tick t.ticks t.nodes e.vtime t.vtimeTick
      (t.world.setFront (t.world.front.setQueue queue)) = .ok (vtimeTick, tested) ∧
    e.node = some i ∧ t.nodes[i]? = some node ∧
    L.handle ops node e tested = .ok (node', world) ∧
    t' = { world, nodes := t.nodes.set i node', vtimeTick
           ticks := if t.vtimeTick < e.vtime then t.ticks + 1 else t.ticks }

/-- Dispatching hands the event to the node it points to. -/
theorem dispatch_cases {nodes nodes' : List Node} {e : QueueEvent} {w w' : World (Logged Log)}
    (h : L.dispatch ops nodes e w = .ok (nodes', w')) :
    ∃ i node node', e.node = some i ∧ nodes[i]? = some node ∧
      L.handle ops node e w = .ok (node', w') ∧ nodes' = nodes.set i node' :=
  handOver_cases h

theorem Step.turn {t t' : LoggedSim Log} {e : QueueEvent} (h : L.Step ops t e t') :
    Turn L ops t e t' := by
  unfold Step step at h
  obtain ⟨⟨e', queue⟩, hpop, h⟩ := bind_eq_ok h
  dsimp only at h
  split at h
  · cases h
  · rename_i hinf
    obtain ⟨⟨vtimeTick, tested⟩, htick, h⟩ := bind_eq_ok h
    obtain ⟨⟨nodes, world⟩, hdispatch, h⟩ := bind_eq_ok h
    cases h
    obtain ⟨i, node, node', hi, hnode, hhandle, rfl⟩ := dispatch_cases hdispatch
    obtain ⟨hpending, -⟩ := EventQueue.pop_ok hpop hinf
    exact ⟨queue, tested, world, vtimeTick, i, node, node', hpending, htick, hi, hnode, hhandle,
      rfl⟩

/-- A property that every route test keeps, with what is written down before it, is kept by the
tick. -/
theorem keeps_tick {I : World (Logged Log) → Prop} {bad : Abort → Prop} {ticks : Nat}
    {nodes : List Node} {vtime vtimeTick : VTime}
    (hnodes : ∀ err, simRouteTest nodes = .error err → bad err)
    (hwrite : ∀ node ∈ nodes, ∀ w, I w →
      I (w.setFront { w.front with log := L.beforeTest ticks node.id w.front.log }))
    (h : ∀ node ∈ nodes, Keeps I bad (nodeRouteTest L.callback node vtimeTick)) :
    Keeps I bad (L.tick ticks nodes vtime vtimeTick) := by
  unfold tick
  refine Keeps.ite (fun _ => ?_) fun _ => keeps_pure _
  refine Keeps.bind (fun w hw => wp_ofExcept (fun _ _ => hw) hnodes) fun _ => ?_
  refine (keeps_forM fun node hmem => ?_).bind fun _ => keeps_pure _
  exact Keeps.bind (hwrite node hmem) fun _ => h node hmem

section Handle

variable {node : Node} {e : QueueEvent} {w : World (Logged Log)}
  {good : Node → World (Logged Log) → Prop} {bad : Abort → Prop}

/-- Handing a packet to its node: it is received and then let go of. -/
theorem wp_handle_packet {ptr : Nat} (hptr : e.packet = some ptr) :
    Wp (L.handle ops node e) good bad w ↔
      Wp (nodeReceive L.callback node e.vtime ptr)
        (fun node' w' => Wp (packetFree ptr) (fun _ => good node') bad w') bad
        (w.setFront { w.front with log := L.beforeEvent e w.front.log }) := by
  rw [handle, wp_bind, wp_writeLog, hptr]
  dsimp only
  rw [wp_bind]
  exact ⟨fun h => h.imp fun _ _ hw' => (wp_bind _ _).mp hw',
    fun h => h.imp fun _ _ hw' => (wp_bind _ _).mpr hw'⟩

/-- Handing a timer event to its node. -/
theorem wp_handle_timer (hptr : e.packet = none) :
    Wp (L.handle ops node e) good bad w ↔
      Wp (nodeTimer ops L.callback node e.vtime e.extra) good bad
        (w.setFront { w.front with log := L.beforeEvent e w.front.log }) := by
  rw [handle, wp_bind, wp_writeLog, hptr]

/-- What handling an event leaves of the node. -/
theorem wp_handle_node :
    Wp (L.handle ops node e) (fun node' _ => Handled w node e node') (fun _ => True) w := by
  cases hptr : e.packet with
  | none =>
    rw [wp_handle_timer hptr]
    exact wp_nodeTimer_node.imp fun node' _ htimed => .timed hptr htimed
  | some ptr =>
    rw [wp_handle_packet hptr]
    refine wp_nodeReceive_read trivial fun packet hp => ?_
    refine (wp_nodeReceive_node hp).imp fun node' w' hreceived => ?_
    exact (wp_true _ _).imp fun _ _ _ => .received hptr hp hreceived

end Handle

/-- What every initialisation keeps holds of the surroundings of the initial nodes. -/
theorem wp_nodes {good : List UInt8 → Prop} {I : World (Logged Log) → Prop}
    (h : ∀ id, KeptNewTimer L.callback id vtimeZero good (fun _ => True) I)
    (nodeOpts : List Char) (n : Nat) {w : World (Logged Log)} (hw : I w) :
    Wp (L.nodes nodeOpts n) (fun nodes w' =>
      List.Forall₂ (fun i node => Initial (UInt16.ofNat i) node) (List.range n) nodes ∧ I w')
      (fun _ => True) w :=
  wp_mapM (fun _ => I) _ (fun i _ w hw =>
    (wp_nodeInit_node.and ((h (UInt16.ofNat i)).keeps_nodeInit nodeOpts w hw)).mono
      (fun _ _ h => h) fun _ _ => trivial) hw

/-- The start reads the topology and initialises a node for every identity up to the largest. -/
theorem start_cases {log : Log} {args : SimArgs} {tape : Nat → Fin randRange}
    {uninit : Nat → List UInt8} {t : LoggedSim Log} (h : L.start log args tape uninit = .ok t) :
    ∃ topo dims nodes world, topoRead args.links = .ok topo ∧
      L.nodes args.nodeOpts (topo.maxId.toNat + 1)
        (loggedWorld log (simBlank topo dims (simEschaton args.timeout) tape uninit)) =
        .ok (nodes, world) ∧
      t = { world, nodes, vtimeTick := vtimeZero, ticks := 0 } := by
  unfold start at h
  obtain ⟨topo, htopo, h⟩ := bind_eq_ok h
  obtain ⟨dims, -, h⟩ := bind_eq_ok h
  obtain ⟨⟨nodes, world⟩, hnodes, h⟩ := bind_eq_ok h
  cases h
  exact ⟨topo, dims, nodes, world, htopo, hnodes, rfl⟩

end Logger

end OldRadio.Second
