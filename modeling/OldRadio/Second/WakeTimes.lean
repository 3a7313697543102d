import OldRadio.Second.Sleep

/-!
# When nodes wake

A node that is awake has a timer, and puts a call on its way to every node it
has a link to when the timer is due. So a node that sleeps next to it is called
within a bounded time, which grows with the number of nodes that woke before.
No node wakes at a time that a double cannot hold, and waking takes exactly
`NODE_WAKEUP_PERIOD`.
-/

namespace OldRadio.Second

open Library
open Node (M)

/-! ## Nodes that call -/

/-- A node whose beacons call those that sleep. -/
def Node.Calls (node : Node) : Prop := node.status ≠ .asleep ∧ node.status ≠ .waking

/-- Node `u` calls those that sleep. -/
def Caller (nodes : List Node) (u : NodeId) : Prop :=
  ∃ node, nodes[u.toNat]? = some node ∧ node.Calls

/-- What node `src` may have said: no flood, and a call only if it calls. -/
def SaidBy (nodes : List Node) (src : NodeId) (data : List UInt8) : Prop :=
  data.headD 0 ≠ packetTypeFlood ∧ (wakeCall data = true → Caller nodes src)

/-- Nodes that call do so for good. -/
theorem StatusMove.calls {Front : Type} {w : World Front} {node node' : Node} {e : QueueEvent}
    (h : StatusMove w node e node') (hcalls : node.Calls) : node'.Calls := by
  cases h with
  | same hstatus => rwa [Node.Calls, hstatus]
  | wakes hasleep => exact absurd hasleep hcalls.1
  | awakes hwaking => exact absurd hwaking hcalls.2

theorem TimerDue.le {id : NodeId} {limit limit' : Nat} {w : World SimFront}
    (h : TimerDue id limit w) (hle : limit ≤ limit') : TimerDue id limit' w := by
  obtain ⟨f, hf, hpacket, hnode, hdue⟩ := h
  exact ⟨f, hf, hpacket, hnode, hdue.trans hle⟩

theorem CallDue.le {id : NodeId} {limit limit' : Nat} {w : World SimFront}
    (h : CallDue id limit w) (hle : limit ≤ limit') : CallDue id limit' w := by
  obtain ⟨f, hf, ptr, p, hptr, hp, hcall, hnode, hdue⟩ := h
  exact ⟨f, hf, ptr, p, hptr, hp, hcall, hnode, hdue.trans hle⟩

/-- Waking is timed exactly while a double holds the time it ends. -/
theorem toNat_wakeTimeAfter {vtime : VTime} (h : vtime.toNat + nodeWakeupPeriod < 2 ^ 53) :
    (wakeTimeAfter vtime).toNat = vtime.toNat + nodeWakeupPeriod := by
  rw [wakeTimeAfter, roundSignificand_of_lt (n := vtime.toNat) (by omega),
    roundSignificand_of_lt h, UInt64.toNat_ofNat']
  exact Nat.mod_eq_of_lt (h.trans (by decide))

/-- The time by which all that wake next to the nodes that do not sleep have been called: each of
these nodes takes the time from a call to its first call as a node that is awake at most. -/
def wakeLimit (nodes : List Node) : Nat :=
  4200000 * nodes.countP fun node => node.status ≠ .asleep

theorem SoundNodes.wakeLimit_le {topo : Topo} {nodes : List Node} (h : SoundNodes topo nodes) :
    wakeLimit nodes ≤ 4200000 * 65536 := by
  have hlength := h.length_eq
  have hmax := topo.maxId.toNat_lt
  refine Nat.mul_le_mul_left _ (List.countP_le_length.trans ?_)
  omega

/-! ## What one turn does -/

namespace EventTurn

variable {F : Type} {ops : FloatOps F} {topo : Topo} {s s' : Sim} {e : QueueEvent}
  {node node' : Node} {queue : EventQueue} {tested : World SimFront}

section

variable (h : EventTurn ops s e node node' s' queue tested)
include h

theorem eschaton_eq : s'.world.front.eschaton = s.world.front.eschaton :=
  h.extends_world.eschaton_eq

theorem eschaton_tested : tested.front.eschaton = s.world.front.eschaton :=
  h.extends_tested.eschaton_eq

theorem statusMove : StatusMove s.world node e node' := h.node_after.statusMove

/-- A node after the turn: the one the event was for, or one as it was before. -/
theorem lookup {j : Nat} {x : Node} (hx : s'.nodes[j]? = some x) :
    (j = node.id.toNat ∧ x = node') ∨ (j ≠ node.id.toNat ∧ s.nodes[j]? = some x) := by
  rw [h.nodes_eq] at hx
  rcases eq_or_ne j node.id.toNat with rfl | hne
  · rw [List.getElem?_set_self (List.getElem?_eq_some_iff.mp h.node_eq).1] at hx
    exact Or.inl ⟨rfl, (Option.some.inj hx).symm⟩
  · rw [List.getElem?_set_ne hne.symm] at hx
    exact Or.inr ⟨hne, hx⟩

theorem node_eq_after : s'.nodes[node.id.toNat]? = some node' := by
  rw [h.nodes_eq]
  exact List.getElem?_set_self (List.getElem?_eq_some_iff.mp h.node_eq).1

theorem caller {u : NodeId} (hu : Caller s.nodes u) : Caller s'.nodes u := by
  obtain ⟨x, hx, hcalls⟩ := hu
  rcases eq_or_ne u node.id with rfl | hne
  · obtain rfl : node = x := Option.some.inj (h.node_eq.symm.trans hx)
    exact ⟨node', h.node_eq_after, h.statusMove.calls hcalls⟩
  · refine ⟨x, ?_, hcalls⟩
    rwa [h.nodes_eq, List.getElem?_set_ne fun heq => hne (UInt16.toNat_inj.mp heq).symm]

/-- A timer that is due is handled, or stays. -/
theorem timerDue {id : NodeId} {limit : Nat} (hdue : TimerDue id limit s.world)
    (hother : e.packet = none → id ≠ node.id) : TimerDue id limit s'.world := by
  obtain ⟨f, hf, hpacket, hnode, hlimit⟩ := hdue
  rw [h.pending_eq] at hf
  rcases Multiset.mem_cons.mp hf with rfl | hf
  · rw [h.event, Option.some.injEq] at hnode
    exact absurd (UInt16.toNat_inj.mp hnode).symm (hother hpacket)
  · exact TimerDue.mono (w := s.world.setQueue queue) ⟨f, hf, hpacket, hnode, hlimit⟩
      h.extends_world

/-- A call that is due is handled, or stays. -/
theorem callDue {id : NodeId} {limit : Nat} (hdue : CallDue id limit s.world) :
    CallDue id limit s'.world ∨ (id = node.id ∧ ∃ ptr p, e.packet = some ptr ∧
      s.world.heap[ptr]? = some p ∧ wakeCall p.data = true) := by
  obtain ⟨f, hf, ptr, p, hptr, hp, hcall, hnode, hlimit⟩ := hdue
  rw [h.pending_eq] at hf
  rcases Multiset.mem_cons.mp hf with rfl | hf
  · rw [h.event, Option.some.injEq] at hnode
    exact Or.inr ⟨(UInt16.toNat_inj.mp hnode).symm, ptr, p, hptr, hp, hcall⟩
  · exact Or.inl (CallDue.mono (w := s.world.setQueue queue)
      ⟨f, hf, ptr, p, hptr, hp, hcall, hnode, hlimit⟩ h.extends_world)

theorem le_of_timerDue {id : NodeId} {limit : Nat} (hdue : TimerDue id limit s.world) :
    e.vtime.toNat ≤ limit := by
  obtain ⟨f, hf, -, -, hlimit⟩ := hdue
  exact (h.first f hf).trans hlimit

theorem le_of_callDue {id : NodeId} {limit : Nat} (hdue : CallDue id limit s.world) :
    e.vtime.toNat ≤ limit := by
  obtain ⟨f, hf, _, _, -, -, -, -, hlimit⟩ := hdue
  exact (h.first f hf).trans hlimit

/-- The time at which waking ends is set when it begins. -/
theorem wakeTime_eq (hasleep : node.status ≠ .asleep) : node'.wakeTime = node.wakeTime := by
  have hwp : Wp (simHandle ops node e) (fun node' _ => node'.wakeTime = node.wakeTime)
      (fun _ => True) tested := by
    unfold simHandle
    split
    · rw [wp_bind]
      refine wp_nodeReceive_read trivial fun p hp => ?_
      have hquiet : node.wakesOn p = false :=
        Bool.eq_false_iff.mpr fun hwakes => hasleep (Node.asleep_of_wakesOn hwakes)
      refine (wp_nodeReceive_quiet hp hquiet).imp fun node' _ hnode' => ?_
      obtain ⟨neighTable, floodTimeout, rfl⟩ := hnode'
      rw [wp_bind]
      exact (wp_true _ _).imp fun _ _ _ => rfl
    · refine wp_nodeTimer_moved.imp fun node' _ hnode' => ?_
      obtain ⟨status, virtloc, rfl, -⟩ := hnode'
      rfl
  exact hwp.of_ok h.handled

/-- A packet of the event as the node receives it. -/
theorem received {ptr : Nat} {p : Packet} (hptr : e.packet = some ptr)
    (hp : s.world.heap[ptr]? = some p) {P : Node → World SimFront → Prop}
    (hafter : ∀ p', tested.heap[ptr]? = some p' → node.wakesOn p' = node.wakesOn p →
      Wp (nodeReceive simCallback node e.vtime ptr)
        (fun node' w' => ∀ w'', Extends w' w'' → P node' w'') (fun _ => True) tested) :
    P node' s'.world := by
  obtain ⟨p', hp', hdata⟩ := h.extends_tested.heap hp
  have hwp : Wp (simHandle ops node e) P (fun _ => True) tested := by
    unfold simHandle
    rw [hptr]
    dsimp only
    rw [wp_bind]
    refine (hafter p' hp' (by rw [Node.wakesOn_eq, Node.wakesOn_eq, hdata])).imp
      fun node' w' hw' => ?_
    rw [wp_bind]
    have hkept : KeptTimer simCallback node.id e.vtime (fun _ => True) (fun _ => True)
        (Extends w') := Extends.keptTimer
    exact (hkept.toKept.keeps_packetFree ptr w' (.refl w')).imp fun _ w'' hw'' => hw' w'' hw''
  exact hwp.of_ok h.handled

/-- A node that is called begins to wake. -/
theorem wakeTime_woken {ptr : Nat} {p : Packet} (hptr : e.packet = some ptr)
    (hp : s.world.heap[ptr]? = some p) (hwakes : node.wakesOn p = true) :
    node'.wakeTime = wakeTimeAfter e.vtime :=
  h.received (P := fun node' _ => node'.wakeTime = wakeTimeAfter e.vtime) hptr hp
    fun _ hp' heq => (wp_nodeReceive_wakeTime hp' (heq.trans hwakes)).imp
      fun _ _ hnode' _ _ => hnode'

/-- A node that is called asks for a timer. -/
theorem timerDue_woken {ptr : Nat} {p : Packet} (hptr : e.packet = some ptr)
    (hp : s.world.heap[ptr]? = some p) (hwakes : node.wakesOn p = true)
    (hroom : e.vtime.toNat + 1500999 < s.world.front.eschaton.toNat) :
    TimerDue node.id (e.vtime.toNat + 1500999) s'.world := by
  rw [← h.eschaton_tested] at hroom
  exact h.received (P := fun _ => TimerDue node.id (e.vtime.toNat + 1500999)) hptr hp
    fun _ hp' heq => (wp_nodeReceive_due hp' (heq.trans hwakes) hroom).imp
      fun _ _ hdue _ hw'' => hdue.mono hw''

/-- After a timer of a node its next one is due, and its calls over every link, unless it is
waking. -/
theorem timed (hvalid : TopoValid topo) (htopo : s.world.front.topo = topo)
    (hnone : e.packet = none)
    (hroom : e.vtime.toNat + 1500999 < s.world.front.eschaton.toNat) :
    TimerDue node.id (e.vtime.toNat + 1500999) s'.world ∧ (node'.status ≠ .waking →
      ∀ v, topo.Link node.id v → CallDue v (e.vtime.toNat + 198999) s'.world) := by
  rw [← h.eschaton_tested] at hroom
  have htested : tested.front.topo = topo := h.extends_tested.topo_eq.trans htopo
  have hwp : Wp (simHandle ops node e) (fun node' w' =>
      TimerDue node.id (e.vtime.toNat + 1500999) w' ∧ (node'.status ≠ .waking →
        ∀ v, topo.Link node.id v → CallDue v (e.vtime.toNat + 198999) w'))
      (fun _ => True) tested := by
    unfold simHandle
    rw [hnone]
    refine (wp_nodeTimer_due hroom).imp fun node' w' hw' => ⟨hw'.1, fun hnot v hlink => ?_⟩
    obtain ⟨t, ht, rfl⟩ := List.mem_map.mp (((hvalid.iter node.id).2 v).mpr hlink)
    exact hw'.2 hnot t (htested ▸ ht)
  exact hwp.of_ok h.handled

theorem wakeLimit_le : wakeLimit s.nodes ≤ wakeLimit s'.nodes := by
  rw [h.nodes_eq]
  refine Nat.mul_le_mul_left _ (countP_le_countP_set h.node_eq fun hawake => ?_)
  rw [decide_eq_true_eq] at hawake ⊢
  exact fun hasleep => hawake (h.statusMove.stays_asleep hasleep)

theorem wakeLimit_wakes (hasleep : node.status = .asleep) (hwaking : node'.status = .waking) :
    wakeLimit s'.nodes = wakeLimit s.nodes + 4200000 := by
  rw [h.nodes_eq, wakeLimit, countP_set_of_not h.node_eq (by simp [hasleep]) (by simp [hwaking])]
  rfl

end

end EventTurn

/-! ## Nodes wake soon -/

/-- Nodes next to one that calls are called soon, and nodes that are waking are soon awake. -/
structure WakesSoon (topo : Topo) (s : Sim) : Prop where
  /-- Only nodes that call have said calls. -/
  called : InFlight topo (SaidBy s.nodes) 0 s.world
  /-- The timer that ends waking is due soon. -/
  waking : ∀ (v : NodeId) (node : Node), s.nodes[v.toNat]? = some node → node.status = .waking →
    node.wakeTime.toNat ≤ wakeLimit s.nodes ∧
      TimerDue v (node.wakeTime.toNat + 1500999) s.world
  /-- A node that sleeps next to one that calls is called soon, or the other has a timer soon. -/
  asleep : ∀ (u v : NodeId) (node : Node), Caller s.nodes u → topo.Link u v →
    s.nodes[v.toNat]? = some node → node.status = .asleep →
      TimerDue u (wakeLimit s.nodes + 1500999) s.world ∨
        CallDue v (wakeLimit s.nodes + 1699998) s.world

/-- No node that sleeps has a timer. -/
def SleepersQuiet (s : Sim) : Prop :=
  ∀ (i : Nat) (node : Node), s.nodes[i]? = some node → node.status = .asleep →
    timers i s.world.pending = 0

/-- Everything that happens soon happens before `Eschaton`. -/
def SoonRoom (s : Sim) : Prop :=
  wakeLimit s.nodes + 3200997 < s.world.front.eschaton.toNat ∧ wakeLimit s.nodes + 4200000 < 2 ^ 53

namespace EventTurn

variable {F : Type} {ops : FloatOps F} {topo : Topo} {s s' : Sim} {e : QueueEvent}
  {node node' : Node} {queue : EventQueue} {tested : World SimFront}

section

variable (h : EventTurn ops s e node node' s' queue tested)
include h

/-- A node that sleeps handles no timer. -/
theorem awake_of_timer (hquiet : SleepersQuiet s) (hnone : e.packet = none) :
    node.status ≠ .asleep := by
  intro hasleep
  have htimers := hquiet _ node h.node_eq hasleep
  rw [h.pending_eq, timers_cons, if_pos ⟨hnone, h.event⟩] at htimers
  cases htimers

/-- A node wakes soon. -/
theorem wakes_soon (hsoon : WakesSoon topo s) (hasleep : node.status = .asleep) {ptr : Nat}
    {p : Packet} (hptr : e.packet = some ptr) (hp : s.world.heap[ptr]? = some p)
    (hcall : wakeCall p.data = true) : e.vtime.toNat ≤ wakeLimit s.nodes + 1699998 := by
  have he : e ∈ 0 + s.world.pending := by
    rw [h.pending_eq, Multiset.zero_add]
    exact Multiset.mem_cons_self e _
  obtain ⟨p', src, dst, hp', hsaid, hlink, hdst⟩ := hsoon.called.sent e he ptr hptr
  cases hp'.symm.trans hp
  obtain rfl : dst = node.id := by
    rw [h.event, Option.some.injEq] at hdst
    exact (UInt16.toNat_inj.mp hdst).symm
  rcases hsoon.asleep src node.id node (hsaid.2 hcall) hlink h.node_eq hasleep with hdue | hdue
  · exact (h.le_of_timerDue hdue).trans (by omega)
  · exact h.le_of_callDue hdue

/-- After a turn, only nodes that call have said calls. -/
theorem called_after (hcalled : InFlight topo (SaidBy s.nodes) 0 s.world)
    (hquiet : SleepersQuiet s) : InFlight topo (SaidBy s'.nodes) 0 s'.world := by
  have hsaid : InFlight topo (SaidBy s'.nodes) 0 s.world :=
    hcalled.mono fun src data hdata => ⟨hdata.1, fun hcall => h.caller (hdata.2 hcall)⟩
  have hdata : ∀ id, ∀ data : PacketData, data.packetType = packetTypeData →
      SaidBy s'.nodes id (packetDataLayout.encode data) := fun id data htype =>
    ⟨by rw [headD_encode, htype]; decide, fun hcall => by
      rw [wakeCall_data htype] at hcall
      cases hcall⟩
  obtain ⟨vtimeTick, htick⟩ := h.ticked
  have htested := (hsaid.hold h.pending_eq).tick hdata htick
  have hbeacon : e.packet = none → ∀ node₁, Timed node e.vtime node₁ →
      SaidBy s'.nodes node.id (beaconData node₁) := fun hnone node₁ htimed => by
    refine ⟨by rw [beaconData, List.headD_cons]; decide, fun hcall => ⟨node', h.node_eq_after, ?_⟩⟩
    have hsame : node'.status = node₁.status := by
      cases h.node_after with
      | received hptr => cases hnone.symm.trans hptr
      | timed _ htimed' => rw [htimed'.status_eq, htimed.status_eq]
    refine ⟨fun hasleep => ?_, by rw [hsame]; exact (wakeCall_beaconData node₁).mp hcall⟩
    exact h.awake_of_timer hquiet hnone (h.statusMove.stays_asleep hasleep)
  exact ((wp_simHandle_inFlight htested (Multiset.mem_singleton_self e)
    (fun _ _ hdata => hdata.1) (hdata node.id) hbeacon).of_ok h.handled).drop

/-- After a turn, a node that is waking is awake by `limit`, if it was to be by `before` or begins
to wake now. -/
theorem waking_after (hvalid : TopoValid topo) (htopo : s.world.front.topo = topo)
    {before limit : Nat} (hle : before ≤ limit)
    (hroom : before + 1500999 < s.world.front.eschaton.toNat) {v : NodeId} {x : Node}
    (hbefore : ∀ y : Node, s.nodes[v.toNat]? = some y → y.status = .waking →
      y.wakeTime.toNat ≤ before ∧ TimerDue v (y.wakeTime.toNat + 1500999) s.world)
    (hwakes : ∀ ptr p, v = node.id → node.status = .asleep → node'.status = .waking →
      e.packet = some ptr → s.world.heap[ptr]? = some p → wakeCall p.data = true →
      e.vtime.toNat + 2500000 ≤ limit ∧ e.vtime.toNat + 2500000 < 2 ^ 53 ∧
        e.vtime.toNat + 1500999 < s.world.front.eschaton.toNat)
    (hx : s'.nodes[v.toNat]? = some x) (hwaking : x.status = .waking) :
    x.wakeTime.toNat ≤ limit ∧ TimerDue v (x.wakeTime.toNat + 1500999) s'.world := by
  rcases h.lookup hx with ⟨hv, rfl⟩ | ⟨hne, hx⟩
  · obtain rfl : v = node.id := UInt16.toNat_inj.mp hv
    cases h.statusMove with
    | same hstatus =>
      have hstill : node.status = .waking := hstatus.symm.trans hwaking
      obtain ⟨hwake, hdue⟩ := hbefore node h.node_eq hstill
      rw [h.wakeTime_eq (by rw [hstill]; decide)]
      refine ⟨hwake.trans hle, ?_⟩
      cases h.node_after with
      | received hptr => exact h.timerDue hdue fun hnone => by cases hnone.symm.trans hptr
      | timed hnone htimed =>
        -- the timer is too early, and the next one is asked for
        have hearly : ¬ node.wakeTime ≤ e.vtime := fun hle => by
          have hawake := htimed.status_eq
          rw [if_pos ⟨hstill, hle⟩, hwaking] at hawake
          cases hawake
        rw [UInt64.le_iff_toNat_le] at hearly
        exact (h.timed hvalid htopo hnone (by omega)).1.le (by omega)
    | @wakes ptr p hasleep _ hptr hp hcall =>
      obtain ⟨hlimit, hexact, hroom⟩ := hwakes ptr p rfl hasleep hwaking hptr hp hcall
      have hwoken := Node.wakesOn_of_call hasleep hcall
      have hperiod : nodeWakeupPeriod = 2500000 := rfl
      rw [h.wakeTime_woken hptr hp hwoken, toNat_wakeTimeAfter (by omega)]
      exact ⟨by omega, (h.timerDue_woken hptr hp hwoken hroom).le (by omega)⟩
    | awakes _ hawake =>
      rw [hawake] at hwaking
      cases hwaking
  · obtain ⟨hwake, hdue⟩ := hbefore x hx hwaking
    exact ⟨hwake.trans hle, h.timerDue hdue fun _ hid => hne (by rw [hid])⟩

/-- A node that sleeps and is called begins to wake. -/
theorem waking_of_call (hasleep : node.status = .asleep) {ptr : Nat} {p : Packet}
    (hptr : e.packet = some ptr) (hp : s.world.heap[ptr]? = some p)
    (hcall : wakeCall p.data = true) : node'.status = .waking := by
  cases h.node_after with
  | received hptr' hp' hreceived =>
    cases hptr.symm.trans hptr'
    cases hp.symm.trans hp'
    rw [hreceived.status_eq, if_pos (Node.wakesOn_of_call hasleep hcall)]
  | timed hnone => cases hnone.symm.trans hptr

/-- After a turn, a node that sleeps next to one that calls is called soon, or the other has a timer
soon, if it was so before the turn or the other was to be awake by then. -/
theorem asleep_after (hvalid : TopoValid topo) (htopo : s.world.front.topo = topo) {limit : Nat}
    (hroom : limit + 3001998 < s.world.front.eschaton.toNat) {u v : NodeId} {x : Node}
    (hcaller : ∀ y : Node, Caller s.nodes u → s.nodes[v.toNat]? = some y → y.status = .asleep →
      TimerDue u (limit + 1500999) s.world ∨ CallDue v (limit + 1699998) s.world)
    (hwaking : ∀ y : Node, s.nodes[u.toNat]? = some y → y.status = .waking →
      y.wakeTime.toNat ≤ limit ∧ TimerDue u (y.wakeTime.toNat + 1500999) s.world)
    (hu : Caller s'.nodes u) (hlink : topo.Link u v) (hx : s'.nodes[v.toNat]? = some x)
    (hasleep : x.status = .asleep) :
    TimerDue u (limit + 1500999) s'.world ∨ CallDue v (limit + 1699998) s'.world := by
  obtain ⟨y, hy, hbefore⟩ : ∃ y, s.nodes[v.toNat]? = some y ∧ y.status = .asleep := by
    rcases h.lookup hx with ⟨hv, rfl⟩ | ⟨-, hx⟩
    · exact ⟨node, hv ▸ h.node_eq, h.statusMove.stays_asleep hasleep⟩
    · exact ⟨x, hx, hasleep⟩
  have hdue : TimerDue u (limit + 1500999) s.world ∨ CallDue v (limit + 1699998) s.world := by
    obtain ⟨z, hz, hcalls⟩ := hu
    rcases h.lookup hz with ⟨hid, rfl⟩ | ⟨-, hz⟩
    · obtain rfl : u = node.id := UInt16.toNat_inj.mp hid
      cases h.statusMove with
      | same hstatus =>
        rw [Node.Calls, hstatus] at hcalls
        exact hcaller y ⟨node, h.node_eq, hcalls⟩ hy hbefore
      | wakes _ hwakes => exact absurd hwakes hcalls.2
      | awakes hstill =>
        obtain ⟨hwake, hdue⟩ := hwaking node h.node_eq hstill
        exact Or.inl (hdue.le (by omega))
    · exact hcaller y ⟨z, hz, hcalls⟩ hy hbefore
  rcases hdue with hdue | hdue
  · by_cases htimer : e.packet = none ∧ u = node.id
    · -- the timer puts the call on its way
      obtain ⟨hnone, rfl⟩ := htimer
      obtain ⟨z, hz, hcalls⟩ := hu
      obtain rfl : node' = z := Option.some.inj (h.node_eq_after.symm.trans hz)
      have hfirst := h.le_of_timerDue hdue
      have hcalled := (h.timed hvalid htopo hnone (by omega)).2 hcalls.2 v hlink
      exact Or.inr (hcalled.le (by omega))
    · exact Or.inl (h.timerDue hdue fun hnone hid => htimer ⟨hnone, hid⟩)
  · rcases h.callDue hdue with hdue | ⟨rfl, ptr, p, hptr, hp, hcall⟩
    · exact Or.inr hdue
    · -- the call wakes the node
      obtain rfl : node = y := Option.some.inj (h.node_eq.symm.trans hy)
      obtain rfl : node' = x := Option.some.inj (h.node_eq_after.symm.trans hx)
      rw [h.waking_of_call hbefore hptr hp hcall] at hasleep
      cases hasleep

end

end EventTurn

section Runs

variable {F : Type} {ops : FloatOps F} {topo : Topo} {s s' : Sim} {e : QueueEvent}

/-- A turn of the main loop leaves things to happen soon. -/
theorem WakesSoon.step (h : WakesSoon topo s) (hvalid : TopoValid topo) (hsound : SoundSim topo s)
    (hquiet : SleepersQuiet s) (hroom : SoonRoom s) (hstep : SimStep ops s e s') :
    WakesSoon topo s' := by
  obtain ⟨node, node', queue, tested, hturn⟩ := hstep.eventTurn hsound
  obtain ⟨hroom, hexact⟩ := hroom
  have hlimit := hturn.wakeLimit_le
  refine ⟨hturn.called_after h.called hquiet, fun v x hx hwaking => ?_,
    fun u v x hu hlink hx hasleep => ?_⟩
  · refine hturn.waking_after hvalid h.called.topo_eq hlimit (by omega) (h.waking v) ?_ hx hwaking
    intro ptr p _ hasleep hwakes hptr hp hcall
    have hsoon := hturn.wakes_soon h hasleep hptr hp hcall
    have hnext := hturn.wakeLimit_wakes hasleep hwakes
    omega
  · refine (hturn.asleep_after hvalid h.called.topo_eq (by omega)
      (fun y hu => h.asleep u v y hu hlink) (h.waking u) hu hlink hx hasleep).imp ?_ ?_
    · exact fun hdue => hdue.le (by omega)
    · exact fun hdue => hdue.le (by omega)

theorem eschaton_start {args : SimArgs} {tape : Nat → Fin randRange} {uninit : Nat → List UInt8}
    (hstart : simStart args tape uninit = .ok s) :
    s.world.front.eschaton = simEschaton args.timeout := by
  obtain ⟨topo, dims, nodes, world, -, -, hnodes, rfl⟩ := simStart_cases hstart
  have hkept : ∀ id, KeptNewTimer simCallback id vtimeZero (fun _ => True) (fun _ => True)
      (Extends (simBlank topo dims (simEschaton args.timeout) tape uninit)) := fun _ =>
    Extends.keptTimer.keptNewTimer
  have hall : Keeps (Extends (simBlank topo dims (simEschaton args.timeout) tape uninit))
      (fun _ => True) (simNodes args.nodeOpts (topo.maxId.toNat + 1)) :=
    keeps_mapM fun i _ => (hkept _).keeps_nodeInit args.nodeOpts
  exact ((hall _ (.refl _)).of_ok hnodes).eschaton_eq

/-- A node as the start leaves it. -/
theorem startNode_start {args : SimArgs} {tape : Nat → Fin randRange} {uninit : Nat → List UInt8}
    (hstart : simStart args tape uninit = .ok s) {i : Nat} {node : Node}
    (hnode : s.nodes[i]? = some node) : StartNode args.nodeOpts i node := by
  obtain ⟨topo, dims, nodes, world, -, -, hnodes, rfl⟩ := simStart_cases hstart
  have hmax : topo.maxId.toNat + 1 ≤ 2 ^ 16 := Nat.succ_le_of_lt topo.maxId.toNat_lt
  exact (forall₂_range ((wp_startNodes hmax).of_ok hnodes) hnode).2

/-- Nothing has been said when the main loop starts. -/
theorem called_start {args : SimArgs} {tape : Nat → Fin randRange} {uninit : Nat → List UInt8}
    (hstart : simStart args tape uninit = .ok s) (htopo : topoRead args.links = .ok topo) :
    InFlight topo (SaidBy s.nodes) 0 s.world := by
  obtain ⟨topo', dims, nodes, world, htopo', -, hnodes, rfl⟩ := simStart_cases hstart
  cases htopo.symm.trans htopo'
  have hnone : InFlight topo (fun _ _ => False) 0 world :=
    ((keeps_mapM fun i _ => inFlight_keptTimer.keptNewTimer.keeps_nodeInit args.nodeOpts) _
      (inFlight_blank topo dims (simEschaton args.timeout) tape uninit)).of_ok hnodes
  exact hnone.mono fun _ _ hfalse => hfalse.elim

/-- A node that does not sleep when the main loop starts has a timer soon. -/
theorem timerDue_start {args : SimArgs} {tape : Nat → Fin randRange} {uninit : Nat → List UInt8}
    (hstart : simStart args tape uninit = .ok s)
    (hroom : 1500999 < (simEschaton args.timeout).toNat) {u : NodeId} (hu : Caller s.nodes u) :
    TimerDue u 1500999 s.world := by
  obtain ⟨topo, dims, nodes, world, -, -, hnodes, rfl⟩ := simStart_cases hstart
  have hmax : topo.maxId.toNat + 1 ≤ 2 ^ 16 := Nat.succ_le_of_lt topo.maxId.toNat_lt
  have heschaton : world.front.eschaton = simEschaton args.timeout := eschaton_start hstart
  obtain ⟨node, hnode, hcalls⟩ := hu
  have hinit : Wp (simNodes args.nodeOpts (topo.maxId.toNat + 1)) (fun nodes w' =>
      ∀ node : Node, nodes[u.toNat]? = some node → node.id.toNat = u.toNat ∧
        (node.status ≠ .asleep → 1500999 < w'.front.eschaton.toNat →
          TimerDue (UInt16.ofNat u.toNat) 1500999 w')) (fun _ => True)
      (simBlank topo dims (simEschaton args.timeout) tape uninit) := by
    refine wp_nodeInits hmax (fun id => (Extends.keptTimer_of_mono ?_).keptNewTimer) ?_
    · intro w w' hw hdue hroom
      rw [hw.eschaton_eq] at hroom
      exact (hdue hroom).mono hw
    · intro delay hdelay w
      by_cases hroom : 1500999 < w.front.eschaton.toNat
      · have hzero : vtimeZero.toNat = 0 := rfl
        refine (wp_simCallback_delay hdelay (by omega)).imp fun _ _ hw' _ => ?_
        exact hw'.2.le (by omega)
      · refine (Extends.keptTimer.timer w delay none hdelay (.refl w)).imp ?_
        intro _ w' hw' hroom'
        rw [hw'.eschaton_eq] at hroom'
        exact absurd hroom' hroom
  have hdue := (hinit.of_ok hnodes node hnode).2 hcalls.1 (by rw [heschaton]; exact hroom)
  rwa [UInt16.ofNat_toNat] at hdue

theorem wakesSoon_start {args : SimArgs} {tape : Nat → Fin randRange} {uninit : Nat → List UInt8}
    (hstart : simStart args tape uninit = .ok s) (htopo : topoRead args.links = .ok topo)
    (hroom : 1500999 < (simEschaton args.timeout).toNat) : WakesSoon topo s where
  called := called_start hstart htopo
  waking _ _ hnode hwaking := absurd hwaking (startNode_start hstart hnode).not_waking
  asleep _ _ _ hu _ _ _ := Or.inl ((timerDue_start hstart hroom hu).le (by omega))

/-- Nodes that sleep have no timer in any state of any run. -/
theorem SimReachable.sleepersQuiet {args : SimArgs} {tape : Nat → Fin randRange}
    {uninit : Nat → List UInt8} (h : SimReachable ops args tape uninit s) : SleepersQuiet s := by
  obtain ⟨s₀, events, hstart, hrun⟩ := h
  obtain ⟨t, htraced, rfl⟩ := simRun_traced ops hstart hrun
  intro i node hnode hasleep
  obtain ⟨hid, hsilent⟩ := htraced.sleepersSilent i node hnode
  rw [← hid]
  exact (hsilent hasleep).2.1

/-- With a large `Eschaton`, nodes wake soon in every state of every run. -/
theorem SimReachable.wakesSoon {args : SimArgs} {tape : Nat → Fin randRange}
    {uninit : Nat → List UInt8} (h : SimReachable ops args tape uninit s)
    (hlate : 2 ^ 63 ≤ (simEschaton args.timeout).toNat) :
    ∃ topo, SoundSim topo s ∧ WakesSoon topo s := by
  obtain ⟨s₀, events, hstart, hrun⟩ := h
  obtain ⟨topo, htopo, hsound⟩ := soundSim_start hstart
  have hsoon := wakesSoon_start hstart htopo (by omega)
  have hvalid := (topoRead_valid htopo).1
  refine ⟨topo, (hrun.keeps_labels (I := fun events s => Run (SimStep ops) s₀ events s ∧
    s.world.front.eschaton = simEschaton args.timeout ∧ SoundSim topo s ∧ WakesSoon topo s)
    ?_ ⟨.nil s₀, eschaton_start hstart, hsound, hsoon⟩).2.2⟩
  rintro done s e s' ⟨hdone, heschaton, hsound, hsoon⟩ hstep
  obtain ⟨node, node', queue, tested, hturn⟩ := hstep.eventTurn hsound
  have hlimit := hsound.2.wakeLimit_le
  have hroom : SoonRoom s := by
    refine ⟨?_, by omega⟩
    rw [heschaton]
    omega
  exact ⟨hdone.snoc hstep, hturn.eschaton_eq.trans heschaton, hsound.step hstep,
    hsoon.step hvalid hsound (SimReachable.sleepersQuiet ⟨s₀, done, hstart, hdone⟩) hroom hstep⟩

/-- Nodes wake while a double holds the time that waking ends. -/
theorem SimReachable.wakes_early {args : SimArgs} {tape : Nat → Fin randRange}
    {uninit : Nat → List UInt8} {node node' : Node} {queue : EventQueue} {tested : World SimFront}
    (h : SimReachable ops args tape uninit s) (hturn : EventTurn ops s e node node' s' queue tested)
    (hasleep : node.status = .asleep) {ptr : Nat} {p : Packet} (hptr : e.packet = some ptr)
    (hp : s.world.heap[ptr]? = some p) (hcall : wakeCall p.data = true) :
    e.vtime.toNat + nodeWakeupPeriod < 2 ^ 53 := by
  have hperiod : nodeWakeupPeriod = 2500000 := rfl
  rcases simEschaton_cases args.timeout with hsmall | hlarge
  · have hdue : e.vtime < simEschaton args.timeout := h.due e (by
      rw [hturn.pending_eq]
      exact Multiset.mem_cons_self e _)
    rw [UInt64.lt_iff_toNat_lt] at hdue
    omega
  · obtain ⟨topo, hsound, hsoon⟩ := h.wakesSoon hlarge
    have hlimit := hsound.2.wakeLimit_le
    have hwakes := hturn.wakes_soon hsoon hasleep hptr hp hcall
    omega

end Runs

end OldRadio.Second
