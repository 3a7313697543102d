import OldRadio.Second.NodeEffects

/-!
# Node code over two front ends

Node code knows its front end through the callback only. If one front end is a
part of another, and the callback of the larger does to the part what the
callback of the smaller does, then so does all node code: it stops in the same
cases, leaves the same node, and makes the same calls.
-/

namespace OldRadio.Second

open Library
open Node (M)

variable {F Front Front' : Type} {ops : FloatOps F} {part : Front → Front'}

/-! ## Random outcomes and packets -/

theorem projects_rand : Projects (World.mapFront part) rand rand := fun _ => rfl

theorem projects_packetAlloc (data : List UInt8) :
    Projects (World.mapFront part) (packetAlloc data) (packetAlloc data) := by
  intro w
  rw [packetAlloc, packetAlloc]
  cases packetNew data with
  | ok p => rfl
  | error e => rfl

theorem projects_packetRead (ptr : Nat) :
    Projects (World.mapFront part) (packetRead ptr) (packetRead ptr) := by
  intro w
  rw [packetRead, packetRead, World.mapFront]
  cases w.heap[ptr]? with
  | none => rfl
  | some p =>
    dsimp only
    split
    · rfl
    · rfl

theorem projects_packetFree (ptr : Nat) :
    Projects (World.mapFront part) (packetFree ptr) (packetFree ptr) :=
  (projects_packetRead ptr).bind fun _ => projects_modify fun _ => rfl

/-! ## Locations -/

theorem projects_coordPerturb (d : Nat) (v : Int32) :
    Projects (World.mapFront part) (coordPerturb d v) (coordPerturb d v) :=
  projects_rand.bind fun _ => projects_pure _

theorem projects_coordPerturbBeyond (k d : Nat) (v : Int32) :
    Projects (World.mapFront part) (coordPerturbBeyond k d v) (coordPerturbBeyond k d v) := by
  refine Projects.get_bind fun w => ?_
  change Projects _ (if k < w.dims then _ else _) (if k < w.dims then _ else _)
  exact (projects_coordPerturb d v).ite (projects_pure 0)

theorem projects_locPerturb (a : Loc) (d : Nat) :
    Projects (World.mapFront part) (locPerturb a d) (locPerturb a d) := by
  refine (projects_coordPerturb d a.x).bind fun x => ?_
  refine (projects_coordPerturbBeyond 1 d a.y).bind fun y => ?_
  exact (projects_coordPerturbBeyond 2 d a.z).bind fun z => projects_pure _

theorem projects_virtlocInit (id : NodeId) :
    Projects (World.mapFront part) (virtlocInit id) (virtlocInit id) :=
  (projects_pure locZero).ite (projects_locPerturb locZero initialPerturb)

theorem projects_recalcLoop (table : NeighTable) (n : Nat) (oldloc : Loc) (oldenergy : F) :
    Projects (World.mapFront part) (recalcLoop ops table n oldloc oldenergy)
      (recalcLoop ops table n oldloc oldenergy) := by
  induction n generalizing oldloc oldenergy with
  | zero => exact projects_pure oldloc
  | succ n ih =>
    exact (projects_locPerturb oldloc 1).bind fun newloc => (ih _ _).ite (ih _ _)

theorem projects_virtlocRecalc (virtloc : Loc) (table : NeighTable) :
    Projects (World.mapFront part) (virtlocRecalc ops virtloc table)
      (virtlocRecalc ops virtloc table) :=
  (projects_pure virtloc).ite ((projects_recalcLoop _ _ _ _).bind fun _ => projects_pure _)

/-! ## Nodes -/

section Nodes

variable {callback : NodeCallback Front} {callback' : NodeCallback Front'}
  (h : ∀ id vtime packet? extra, Projects (World.mapFront part)
    (callback id vtime packet? extra) (callback' id vtime packet? extra))
include h

theorem projects_nodeSetStatus (node : Node) (vtime : VTime) (status : NodeStatus) :
    Projects (World.mapFront part) (nodeSetStatus (some callback) node vtime status)
      (nodeSetStatus (some callback') node vtime status) := by
  refine (projects_pure _).ite ?_
  have hdelay : Projects (World.mapFront part) (statusDelay status : M Front Nat)
      (statusDelay status) :=
    (projects_pure 0).ite (projects_rand.bind fun _ => projects_pure _)
  exact hdelay.bind fun delay => (h _ _ _ _).bind fun _ => projects_pure _

theorem projects_nodeInit (id : NodeId) (nodeOpts : List Char) :
    Projects (World.mapFront part) (nodeInit (some callback) id nodeOpts)
      (nodeInit (some callback') id nodeOpts) := by
  refine (projects_virtlocInit id).bind fun virtloc => ?_
  refine (projects_nodeSetStatus h _ _ _).ite ?_
  exact (projects_nodeSetStatus h _ _ _).ite (projects_pure _)

theorem projects_nodeWake (node : Node) (vtime : VTime) (loc : Loc) :
    Projects (World.mapFront part) (nodeWake callback node vtime loc)
      (nodeWake callback' node vtime loc) := by
  refine (projects_nodeSetStatus h _ _ _).bind fun node => ?_
  refine (projects_locPerturb _ _).bind fun virtloc => ?_
  exact (h _ _ _ _).bind fun _ => projects_pure _

omit h in
theorem projects_nodeRecord (node : Node) (vtime : VTime) (neighs : List Neigh) :
    Projects (World.mapFront part) (nodeRecord node vtime neighs)
      (nodeRecord node vtime neighs) :=
  (projects_ofExcept _).bind fun _ => projects_pure _

theorem projects_nodeReceiveBeacon (node : Node) (vtime : VTime) (packet : Packet) :
    Projects (World.mapFront part) (nodeReceiveBeacon callback node vtime packet)
      (nodeReceiveBeacon callback' node vtime packet) := by
  refine (projects_ofExcept _).bind fun neighs => ?_
  refine Projects.ite ?_ (projects_nodeRecord _ _ _)
  refine (projects_pure _).ite ?_
  exact (projects_nodeWake h _ _ _).bind fun node => projects_nodeRecord _ _ _

/-- Allocating a packet, sending it and freeing it. -/
theorem projects_sendNew (id : NodeId) (vtime : VTime) (data : List UInt8) :
    Projects (World.mapFront part) (sendNew callback id vtime data)
      (sendNew callback' id vtime data) := by
  refine (projects_packetAlloc data).bind fun ptr => ?_
  exact (h _ _ _ _).bind fun _ => projects_packetFree ptr

theorem projects_nodeForwardData (node : Node) (vtime : VTime) (data : PacketData) :
    Projects (World.mapFront part) (nodeForwardData callback node vtime data)
      (nodeForwardData callback' node vtime data) :=
  (projects_pure ()).ite (projects_sendNew h _ _ _)

theorem projects_nodeReceiveData (node : Node) (vtime : VTime) (packet : Packet) :
    Projects (World.mapFront part) (nodeReceiveData callback node vtime packet)
      (nodeReceiveData callback' node vtime packet) := by
  refine (projects_throw _).ite ((projects_pure ()).ite ((projects_pure ()).ite ?_))
  exact projects_nodeForwardData h _ _ _

theorem projects_nodeReceiveFlood (node : Node) (vtime : VTime) (ptr : Nat) :
    Projects (World.mapFront part) (nodeReceiveFlood callback node vtime ptr)
      (nodeReceiveFlood callback' node vtime ptr) := by
  have hsend : Projects (World.mapFront part) (nodeSendFlood callback node vtime ptr)
      (nodeSendFlood callback' node vtime ptr) :=
    Projects.ite ((h _ _ _ _).bind fun _ => projects_pure _) (projects_pure _)
  refine hsend.bind fun node => Projects.get_bind fun w => ?_
  exact (projects_sendNew h _ _ _).bind fun _ => projects_pure _

theorem projects_nodeReceive (node : Node) (vtime : VTime) (ptr : Nat) :
    Projects (World.mapFront part) (nodeReceive callback node vtime ptr)
      (nodeReceive callback' node vtime ptr) := by
  refine (projects_packetRead ptr).bind fun packet => ?_
  refine (projects_nodeReceiveBeacon h _ _ _).ite ((projects_nodeReceiveFlood h _ _ _).ite ?_)
  exact ((projects_nodeReceiveData h _ _ _).bind fun _ => projects_pure _).ite (projects_pure _)

theorem projects_nodeTimer (node : Node) (vtime : VTime) (extra : Option Nat) :
    Projects (World.mapFront part) (nodeTimer ops callback node vtime extra)
      (nodeTimer ops callback' node vtime extra) := by
  have hstatus : Projects (World.mapFront part) (nodeTimerStatus callback node vtime)
      (nodeTimerStatus callback' node vtime) :=
    (projects_nodeSetStatus h _ _ _).ite (projects_pure _)
  refine hstatus.bind fun node => ?_
  refine ((projects_virtlocRecalc _ _).bind fun _ => projects_pure _).bind fun node => ?_
  refine (projects_sendNew h _ _ _).bind fun _ => ?_
  exact projects_rand.bind fun r => (h _ _ _ _).bind fun _ => projects_pure _

theorem projects_nodeRouteTest (node : Node) (vtime : VTime) :
    Projects (World.mapFront part) (nodeRouteTest callback node vtime)
      (nodeRouteTest callback' node vtime) :=
  projects_nodeForwardData h _ _ _

end Nodes

end OldRadio.Second
