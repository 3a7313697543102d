import OldRadio.Second.Broadcasts
import OldRadio.Second.SimNeighbours
import OldRadio.Second.SimTime

/-!
# What an event leaves to come

A timer event of a node puts its beacon on the way to every node it has a link
to, and asks for the next timer; waking asks for timers too. Nothing that is to
come is taken away by what happens in between. While there is room before
`Eschaton`, this bounds when the next timer of a node is due and when a node
that sleeps is called.
-/

namespace OldRadio.Second

open Library
open Node (M)

/-- Whether a packet wakes a node that sleeps: a beacon of a node that is not waking itself. -/
def wakeCall (data : List UInt8) : Bool :=
  data.headD 0 == packetTypeBeacon && (beaconParse data).toOption.isSome &&
    data.getD 1 0 != NodeStatus.waking.toByte

theorem Node.wakesOn_eq (node : Node) (packet : Packet) :
    node.wakesOn packet = (node.status == .asleep && wakeCall packet.data) := by
  rw [Node.wakesOn, wakeCall, Bool.and_assoc, Bool.and_assoc, Bool.and_assoc]

theorem Node.wakesOn_of_call {node : Node} {packet : Packet} (hasleep : node.status = .asleep)
    (hcall : wakeCall packet.data = true) : node.wakesOn packet = true := by
  rw [Node.wakesOn_eq, hasleep, hcall]
  rfl

theorem toByte_eq_waking {status : NodeStatus} :
    status.toByte = NodeStatus.waking.toByte ↔ status = .waking := by
  cases status <;> decide

/-- The beacon of a node calls those that sleep unless the node is waking. -/
theorem wakeCall_beaconData (node : Node) :
    wakeCall (beaconData node) = true ↔ node.status ≠ .waking := by
  rw [wakeCall, beaconParse_beaconData, beaconData, List.headD_cons, List.getD_cons_succ,
    List.getD_cons_zero, beq_self_eq_true, Bool.true_and, Except.toOption, Option.isSome_some,
    Bool.true_and, bne_iff_ne, Ne, toByte_eq_waking]

/-- Data packets call nobody. -/
theorem wakeCall_data {data : PacketData} (h : data.packetType = packetTypeData) :
    wakeCall (packetDataLayout.encode data) = false := by
  have htype : (packetDataLayout.encode data).headD 0 ≠ packetTypeBeacon := by
    rw [headD_encode, h]
    decide
  rw [wakeCall, beq_eq_false_iff_ne.mpr htype, Bool.false_and, Bool.false_and]

/-! ## What is to come stays -/

/-- The world `w'` is `w` after other work that took no event away. -/
structure Extends (w w' : World SimFront) : Prop where
  /-- The work used some outcomes of `rand`. -/
  after : ∃ n, After n w w'
  /-- It took no event away. -/
  pending_le : w.pending ≤ w'.pending

namespace Extends

variable {w w₁ w₂ : World SimFront} {id : NodeId} {vtime : VTime}

theorem refl (w : World SimFront) : Extends w w := ⟨⟨0, .refl w⟩, le_rfl⟩

theorem trans (h₁ : Extends w w₁) (h₂ : Extends w₁ w₂) : Extends w w₂ := by
  obtain ⟨m, hm⟩ := h₁.after
  obtain ⟨n, hn⟩ := h₂.after
  exact ⟨⟨m + n, hm.trans hn⟩, h₁.pending_le.trans h₂.pending_le⟩

theorem of_after {n : Nat} (h : After n w w₁) (hpending : w.pending ≤ w₁.pending) :
    Extends w w₁ := ⟨⟨n, h⟩, hpending⟩

theorem eschaton_eq (h : Extends w w₁) : w₁.front.eschaton = w.front.eschaton :=
  h.after.elim fun _ h => h.eschaton_eq

theorem topo_eq (h : Extends w w₁) : w₁.front.topo = w.front.topo :=
  h.after.elim fun _ h => h.topo_eq

theorem heap (h : Extends w w₁) {ptr : Nat} {p : Packet} (hp : w.heap[ptr]? = some p) :
    ∃ p', w₁.heap[ptr]? = some p' ∧ p'.data = p.data :=
  h.after.elim fun _ h => h.heap ptr p hp

/-- An event more. -/
theorem setQueue {queue : EventQueue} {e : QueueEvent} (h : Extends w w₁)
    (hqueue : queue.pending = e ::ₘ w₁.pending) : Extends w (w₁.setQueue queue) := by
  refine h.trans (.of_after (.setQueue w₁ queue) ?_)
  rw [World.setQueue_pending, hqueue]
  exact Multiset.le_cons_self _ _

/-- Node code takes no event away. -/
theorem keptTimer :
    KeptTimer simCallback id vtime (fun _ => True) (fun _ => True) (Extends w) where
  toKept := Delivers.kept
    { skip := fun w' h => h.trans (.of_after (.skip w' 1) le_rfl)
      push := fun w' _ _ h => h.trans (.of_after (.push w' _) le_rfl)
      poke := fun w' _ _ n hp h => h.trans (.of_after (.poke (w := w') hp n) le_rfl)
      deliver := fun _ _ _ _ _ _ _ _ _ hqueue h => h.setQueue hqueue }
  timer w' _ _ _ h := wp_simCallback_timer trivial
    (fun _ => h.trans (.of_after (.skip w' 1) le_rfl))
    fun _ _ hqueue => (h.trans (.of_after (.skip w' 1) le_rfl)).setQueue hqueue

/-- A property that no other work takes away is kept by node code. -/
theorem keptTimer_of_mono {I : World SimFront → Prop}
    (hmono : ∀ w w', Extends w w' → I w → I w') :
    KeptTimer simCallback id vtime (fun _ => True) (fun _ => True) I where
  skip w h := hmono _ _ (.of_after (.skip w 1) le_rfl) h
  push w _ _ h := hmono _ _ (.of_after (.push w _) le_rfl) h
  poke w _ _ n hp h := hmono _ _ (.of_after (.poke (w := w) hp n) le_rfl) h
  send w ptr p hp hgood h :=
    (keptTimer.send w ptr p hp hgood (.refl w)).imp fun _ _ hw' => hmono _ _ hw' h
  freed := trivial
  full := trivial
  bounds := trivial
  timer w delay extra hdelay h :=
    (keptTimer.timer w delay extra hdelay (.refl w)).imp fun _ _ hw' => hmono _ _ hw' h

end Extends

/-- A timer of node `id` is due by `limit`. -/
def TimerDue (id : NodeId) (limit : Nat) (w : World SimFront) : Prop :=
  ∃ f ∈ w.pending, f.packet = none ∧ f.node = some id.toNat ∧ f.vtime.toNat ≤ limit

/-- A call arrives at node `id` by `limit`. -/
def CallDue (id : NodeId) (limit : Nat) (w : World SimFront) : Prop :=
  ∃ f ∈ w.pending, ∃ ptr p, f.packet = some ptr ∧ w.heap[ptr]? = some p ∧ wakeCall p.data = true ∧
    f.node = some id.toNat ∧ f.vtime.toNat ≤ limit

theorem TimerDue.mono {id : NodeId} {limit : Nat} {w w' : World SimFront}
    (h : TimerDue id limit w) (hw : Extends w w') : TimerDue id limit w' := by
  obtain ⟨f, hf, hrest⟩ := h
  exact ⟨f, Multiset.mem_of_le hw.pending_le hf, hrest⟩

theorem CallDue.mono {id : NodeId} {limit : Nat} {w w' : World SimFront}
    (h : CallDue id limit w) (hw : Extends w w') : CallDue id limit w' := by
  obtain ⟨f, hf, ptr, p, hptr, hp, hcall, hrest⟩ := h
  obtain ⟨p', hp', hdata⟩ := hw.heap hp
  exact ⟨f, Multiset.mem_of_le hw.pending_le hf, ptr, p', hptr, hp', hdata ▸ hcall, hrest⟩

/-! ## What node code asks for -/

section Due

variable {F : Type} {ops : FloatOps F} {id : NodeId} {node : Node} {vtime : VTime}
  {w : World SimFront}

/-- A timer asked for before `Eschaton` is due at most 999 later. -/
theorem wp_simCallback_due {extra : Option Nat}
    (hroom : vtime.toNat + 999 < w.front.eschaton.toNat) :
    Wp (simCallback id vtime none extra)
      (fun _ w' => Extends w w' ∧ TimerDue id (vtime.toNat + 999) w') (fun _ => True) w := by
  have hfuzz : w.rand 0 % simTimerDelayFuzz < 1000 := Nat.mod_lt _ (by decide)
  have hlast := w.front.eschaton.toNat_lt
  have hdue : (timerEvent id vtime extra (w.rand 0)).vtime.toNat =
      vtime.toNat + w.rand 0 % simTimerDelayFuzz := VTime.toNat_after (by omega)
  refine wp_simCallback_timer trivial (fun hdrop => ?_) fun _ queue hqueue => ?_
  · rw [UInt64.le_iff_toNat_le] at hdrop
    omega
  · refine ⟨(Extends.of_after (.skip w 1) le_rfl).setQueue hqueue,
      timerEvent id vtime extra (w.rand 0), ?_, rfl, rfl, by omega⟩
    rw [World.setQueue_pending, hqueue]
    exact Multiset.mem_cons_self _ _

/-- A timer asked for at a delay from `vtime` is due at most 1500999 after it. -/
theorem wp_simCallback_delay {extra : Option Nat} {delay : Nat} (hdelay : delay ≤ 1500000)
    (hroom : vtime.toNat + 1500999 < w.front.eschaton.toNat) :
    Wp (simCallback id (vtime.after delay) none extra)
      (fun _ w' => Extends w w' ∧ TimerDue id (vtime.toNat + 1500999) w') (fun _ => True) w := by
  have hlast := w.front.eschaton.toNat_lt
  have hafter : (vtime.after delay).toNat = vtime.toNat + delay := VTime.toNat_after (by omega)
  refine (wp_simCallback_due (by omega)).imp fun _ w' hw' => ⟨hw'.1, ?_⟩
  obtain ⟨f, hf, hpacket, hnode, hdue⟩ := hw'.2
  exact ⟨f, hf, hpacket, hnode, by omega⟩

/-- A packet becomes an event at the end of every link. -/
theorem exists_mem_packetEvents (tape : Nat → Fin randRange) (vtime : VTime) (ptr length : Nat)
    {links : List TopoEntry} (drawn : Nat) {t : TopoEntry} (ht : t ∈ links) :
    ∃ r, packetEvent t.dst vtime ptr none length r ∈
      packetEvents tape vtime ptr length links drawn := by
  induction links generalizing drawn with
  | nil => exact absurd ht List.not_mem_nil
  | cons t' links ih =>
    rw [packetEvents_cons]
    rcases List.mem_cons.mp ht with rfl | ht
    · exact ⟨_, List.mem_cons_self⟩
    · obtain ⟨r, hr⟩ := ih (drawn + 1) ht
      exact ⟨r, List.mem_cons_of_mem _ hr⟩

/-- A call that is sent before `Eschaton` arrives over every link. -/
theorem wp_sendNew_due {data : List UInt8} (hcall : wakeCall data = true) (hbrief : Brief data)
    (hroom : vtime.toNat + 198999 < w.front.eschaton.toNat) :
    Wp (sendNew simCallback id vtime data)
      (fun _ w' => ∀ t ∈ topoIter w.front.topo id, CallDue t.dst (vtime.toNat + 198999) w')
      (fun _ => True) w := by
  have hlast := w.front.eschaton.toNat_lt
  rw [sendNew, wp_bind, wp_packetAlloc hbrief.1, wp_bind]
  refine (wp_simCallback_packet trivial trivial (w.push_heap _) rfl).imp fun _ w' hw' => ?_
  obtain ⟨queue, hpending, rfl⟩ := hw'
  rw [packetFree, wp_bind]
  refine wp_packetRead trivial fun p hp t ht => ?_
  obtain ⟨r, hr⟩ :=
    exists_mem_packetEvents w.tape vtime w.heap.length data.length w.drawn ht
  have hdelay := propDelay_le hbrief.2 r
  have hdue : (packetEvent t.dst vtime w.heap.length none data.length r).vtime.toNat =
      vtime.toNat + propDelay data.length r := VTime.toNat_after (by omega)
  refine CallDue.mono ?_ (Extends.of_after (.poke hp _) le_rfl)
  refine ⟨_, ?_, w.heap.length, _, rfl, heap_poke (w.push_heap _), hcall, rfl,
    hdue.trans_le (by omega)⟩
  rw [World.setQueue_pending, hpending]
  refine Multiset.mem_add.mpr (Or.inl (Multiset.mem_coe.mpr (List.mem_filter.mpr ⟨hr, ?_⟩)))
  rw [decide_eq_true_eq, UInt64.lt_iff_toNat_lt]
  exact hdue.trans_lt (by change _ < w.front.eschaton.toNat; omega)

/-- A beacon is a call at the end of every link unless its sender is waking. -/
theorem wp_nodeSendBeacon_due {w₁ : World SimFront} (hw₁ : Extends w w₁)
    (hroom : vtime.toNat + 198999 < w.front.eschaton.toNat) :
    Wp (nodeSendBeacon simCallback node vtime)
      (fun _ w₂ => Extends w w₂ ∧ (node.status ≠ .waking → ∀ t ∈ topoIter w.front.topo node.id,
        CallDue t.dst (vtime.toNat + 198999) w₂)) (fun _ => True) w₁ := by
  have hkept : KeptTimer simCallback node.id vtime (fun _ => True) (fun _ => True) (Extends w) :=
    Extends.keptTimer
  have hcalls : Wp (nodeSendBeacon simCallback node vtime)
      (fun _ w₂ => node.status ≠ .waking → ∀ t ∈ topoIter w.front.topo node.id,
        CallDue t.dst (vtime.toNat + 198999) w₂) (fun _ => True) w₁ := by
    rw [← hw₁.topo_eq]
    rw [← hw₁.eschaton_eq] at hroom
    by_cases hwaking : node.status = .waking
    · exact (wp_true _ _).imp fun _ _ _ hnot => absurd hwaking hnot
    · have hcall := (wakeCall_beaconData node).mpr hwaking
      exact (wp_sendNew_due hcall (brief_beacon node) hroom).imp fun _ w₂ hw₂ _ => hw₂
  exact ((hkept.toKept.keptNew.keeps_nodeSendBeacon trivial w₁ hw₁).and hcalls).mono
    (fun _ _ h => h) fun _ _ => trivial

/-- A timer event puts the node's beacon on the way over every link, as a call unless the node is
waking, and asks for the next timer. -/
theorem wp_nodeTimer_due {extra : Option Nat}
    (hroom : vtime.toNat + 1500999 < w.front.eschaton.toNat) :
    Wp (nodeTimer ops simCallback node vtime extra)
      (fun node' w' => TimerDue node.id (vtime.toNat + 1500999) w' ∧
        (node'.status ≠ .waking → ∀ t ∈ topoIter w.front.topo node.id,
          CallDue t.dst (vtime.toNat + 198999) w')) (fun _ => True) w := by
  have hkept : KeptTimer simCallback node.id vtime (fun _ => True) (fun _ => True) (Extends w) :=
    Extends.keptTimer
  have hask := hkept.timer _ _ none (beaconDelay_le (w.rand_lt 0)) (hkept.skip w (.refl w))
  rw [nodeTimer, wp_bind]
  refine (wp_nodeTimerStatus (.refl w) hask).imp
    fun node₁ w₁ h₁ => wp_nodeRearm fun virtloc _ => ?_
  obtain ⟨⟨status, rfl, -⟩, hw₁⟩ := h₁
  have hskip := hkept.keptNewTimer.toKeptNew.skips
    (recalcDraws ops w₁.dims node.virtloc node.neighTable) hw₁
  refine (wp_nodeSendBeacon_due hskip (by omega)).imp fun _ w₂ h₂ => ?_
  obtain ⟨hw₂, hcalls⟩ := h₂
  refine (wp_simCallback_delay (beaconDelay_le (w₂.rand_lt 0)) ?_).imp fun _ w₃ h₃ => ?_
  · rw [World.skip_front, hw₂.eschaton_eq]
    exact hroom
  · refine ⟨h₃.2, fun hnot t ht => (hcalls hnot t ht).mono ?_⟩
    exact (Extends.of_after (.skip w₂ 1) le_rfl).trans h₃.1

/-- Waking asks for a timer. -/
theorem wp_nodeReceive_due {ptr : Nat} {packet : Packet} (hp : w.heap[ptr]? = some packet)
    (hwakes : node.wakesOn packet = true)
    (hroom : vtime.toNat + 1500999 < w.front.eschaton.toNat) :
    Wp (nodeReceive simCallback node vtime ptr)
      (fun _ w' => TimerDue node.id (vtime.toNat + 1500999) w') (fun _ => True) w := by
  have hkept : KeptTimer simCallback node.id vtime (fun _ => True) (fun _ => True) (Extends w) :=
    Extends.keptTimer
  refine wp_nodeReceive_wake hp hwakes (fun _ => trivial) fun neighs loc hparse => wp_nodeWake ?_
  refine (hkept.timer _ _ _ (beaconDelay_le (w.rand_lt 0)) (hkept.skip w (.refl w))).imp
    fun _ w₁ hw₁ virtloc _ => ?_
  refine (wp_simCallback_delay (by decide) ?_).imp fun _ w₂ h₂ => ?_
  · rw [World.skip_front, hw₁.eschaton_eq]
    exact hroom
  · exact wp_nodeRecord _ _ (beaconParse_ne_nil hparse) (fun _ => trivial) fun _ _ => h₂.2

end Due

/-! ## One turn -/

section Turn

variable {F : Type} {ops : FloatOps F} {topo : Topo} {s s' : Sim} {e : QueueEvent}
  {node node' : Node}

/-- What a turn did: it took the event out of the queue, did other work up to `tested`, and handed
the event to the node it is for. -/
structure EventTurn (ops : FloatOps F) (s : Sim) (e : QueueEvent) (node node' : Node) (s' : Sim)
    (queue : EventQueue) (tested : World SimFront) : Prop where
  /-- The event is for the node. -/
  event : e.node = some node.id.toNat
  /-- Where the node was. -/
  node_eq : s.nodes[node.id.toNat]? = some node
  /-- Only the node changed. -/
  nodes_eq : s'.nodes = s.nodes.set node.id.toNat node'
  /-- The event left the queue. -/
  pending_eq : s.world.pending = e ::ₘ queue.pending
  /-- It was due first. -/
  first : ∀ f ∈ s.world.pending, e.vtime.toNat ≤ f.vtime.toNat
  /-- The route tests. -/
  ticked : ∃ vtimeTick, simTick s.nodes e.vtime s.vtimeTick (s.world.setQueue queue) =
    .ok (vtimeTick, tested)
  /-- The event was handled. -/
  handled : simHandle ops node e tested = .ok (node', s'.world)
  /-- The packet of the event exists. -/
  held : ∀ ptr, e.packet = some ptr → ∃ p, s.world.heap[ptr]? = some p

theorem SimStep.eventTurn (hstep : SimStep ops s e s') (hsound : SoundSim topo s) :
    ∃ node node' queue tested, EventTurn ops s e node node' s' queue tested := by
  obtain ⟨queue, tested, world, nodes, vtimeTick, hpending, htick, hdispatch, rfl⟩ :=
    hstep.turn.ran
  obtain ⟨i, node, node', hi, hnode, hhandle, rfl⟩ := simDispatch_cases hdispatch
  obtain ⟨rfl, -⟩ := hsound.2.sound i node hnode
  refine ⟨node, node', queue, tested, hi, hnode, rfl, hpending, hstep.turn.first,
    ⟨vtimeTick, htick⟩, hhandle, fun ptr hptr => ?_⟩
  have he : e ∈ 0 + s.world.pending := by
    rw [hpending, Multiset.zero_add]
    exact Multiset.mem_cons_self e _
  obtain ⟨p, -, -, hp, -⟩ := hsound.1.sent e he ptr hptr
  exact ⟨p, hp⟩

namespace EventTurn

variable {queue : EventQueue} {tested : World SimFront}
  (h : EventTurn ops s e node node' s' queue tested)
include h

theorem extends_tested : Extends (s.world.setQueue queue) tested := by
  obtain ⟨vtimeTick, htick⟩ := h.ticked
  have hsent := tick_sent htick
  obtain ⟨new, hnew, -⟩ := hsent.added
  refine .of_after hsent.after ?_
  rw [hnew]
  exact Multiset.le_add_left _ _

/-- The turn took no other event away. -/
theorem extends_world : Extends (s.world.setQueue queue) s'.world :=
  (Extends.keptTimer.keeps_simHandle tested h.extends_tested).of_ok h.handled

/-- What the turn left of the node. -/
theorem node_after : Handled s.world node e node' := by
  cases wp_simHandle_node.of_ok h.handled with
  | received hptr hp hreceived =>
    obtain ⟨p, hp₀⟩ := h.held _ hptr
    obtain ⟨p', hp', hdata⟩ := h.extends_tested.heap hp₀
    cases hp'.symm.trans hp
    exact .received hptr hp₀ (hreceived.of_data hdata)
  | timed hnone htimed => exact .timed hnone htimed

end EventTurn

end Turn

end OldRadio.Second
