import OldRadio.Second.SimLogs

/-!
# The simulator with a record of what is sent

A log of the packets that are passed to the callback, each before it does what
`sim_callback` does. A packet is written down with the route test it comes from:
the one that is running, or the one that the packet being received comes from.
-/

namespace OldRadio.Second

open Library
open Node (M)

/-- A call of `node_route_test`: the node, and the number of the tick that makes it. -/
structure RouteTest where
  /-- The node. -/
  node : NodeId
  /-- Number of ticks before. -/
  tick : Nat
  deriving DecidableEq, Repr

/-- A packet passed to `sim_callback`. -/
structure Broadcast where
  /-- The node that passes it. -/
  node : NodeId
  /-- The time it passes. -/
  vtime : VTime
  /-- The packet. -/
  ptr : Nat
  /-- Number of calls of `rand` made before. -/
  drawn : Nat
  /-- The route test that the packet comes from, if it is not a beacon. -/
  origin : Option RouteTest
  deriving DecidableEq, Repr

/-- The log. -/
structure Trace where
  /-- The packets passed to the callback so far, in order. -/
  sends : List Broadcast
  /-- The route test that what runs now comes from. -/
  origin : Option RouteTest

/-- The front end of the simulator with the log. -/
abbrev Traced := Logged Trace

/-- Nothing is written down before any node is initialised. -/
def Trace.blank : Trace := { sends := [], origin := none }

/-- What is running comes from another route test. -/
def Trace.startedBy (origin : Option RouteTest) (log : Trace) : Trace := { log with origin }

/-- The route test that a packet comes from. -/
def Trace.originOf (log : Trace) (ptr : Nat) : Option RouteTest :=
  (log.sends.find? fun b => b.ptr = ptr).bind Broadcast.origin

/-- Writing down a packet. -/
def recordSend (id : NodeId) (vtime : VTime) : Option Nat → M Traced Unit
  | some ptr => do
    let w ← get
    writeLog fun log =>
      { log with
        sends := log.sends ++ [{ node := id, vtime, ptr, drawn := w.drawn, origin := log.origin }] }
  | none => return ()

/-- `sim_callback` with the log. -/
def tracedCallback : NodeCallback Traced := fun id vtime packet? extra => do
  recordSend id vtime packet?
  besideLog (simCallback id vtime packet? extra)

/-- The simulator with the log: route tests start themselves, and events what the test did that
their packet comes from. -/
def tracer : Logger Trace where
  callback := tracedCallback
  projects id vtime packet? extra := by
    cases packet? with
    | none => exact projects_besideLog _
    | some ptr => exact fun w => projects_besideLog (simCallback id vtime (some ptr) extra) _
  beforeTest tick id := Trace.startedBy (some { node := id, tick })
  beforeEvent e log := log.startedBy (e.packet.bind log.originOf)

/-- The state of the main loop with the log. -/
abbrev TracedSim := LoggedSim Trace

variable {F : Type} (ops : FloatOps F)

/-- A turn of the main loop that handles an event. -/
abbrev TracedStep : TracedSim → QueueEvent → TracedSim → Prop := tracer.Step ops

/-- A run of the simulator with the log. -/
def TracedRun (args : SimArgs) (tape : Nat → Fin randRange) (uninit : Nat → List UInt8)
    (events : List QueueEvent) (t : TracedSim) : Prop :=
  tracer.Runs ops .blank args tape uninit events t

/-- Every run of the simulator is a run with the log, with the log left out. -/
theorem simRun_traced {args : SimArgs} {tape : Nat → Fin randRange} {uninit : Nat → List UInt8}
    {s₀ s : Sim} {events : List QueueEvent} (hstart : simStart args tape uninit = .ok s₀)
    (hrun : Run (SimStep ops) s₀ events s) :
    ∃ t, TracedRun ops args tape uninit events t ∧ t.erase = s :=
  simRun_logged tracer .blank hstart hrun

end OldRadio.Second
