import OldRadio.Second.Deliveries
import OldRadio.Second.SimTimers
import OldRadio.Second.WakeCalls

/-!
# Nodes that sleep

A node sleeps until a beacon of a node that is not waking reaches it, then it is
waking, and then awake for good. While it sleeps it has heard of nobody, so that
it has nobody to pass data packets on to, and it has no timers, so that it sends
no beacons: it is silent until it is woken.
-/

namespace OldRadio.Second

open Library
open Node (M)

/-! ## Changes of status -/

/-- How an event changes the status of the node it is for. -/
inductive StatusMove {Front : Type} (w : World Front) (node : Node) (e : QueueEvent)
    (node' : Node) : Prop where
  /-- It does not. -/
  | same (status_eq : node'.status = node.status)
  /-- The node is called and begins to wake. -/
  | wakes {ptr : Nat} {packet : Packet} (asleep : node.status = .asleep)
    (waking : node'.status = .waking) (carries : e.packet = some ptr)
    (found : w.heap[ptr]? = some packet) (call : wakeCall packet.data = true)
  /-- The node is awake. -/
  | awakes (waking : node.status = .waking) (awake : node'.status = .awake)
    (timer : e.packet = none) (due : node.wakeTime ≤ e.vtime)

theorem Handled.statusMove {Front : Type} {w : World Front} {node node' : Node} {e : QueueEvent}
    (h : Handled w node e node') : StatusMove w node e node' := by
  cases h with
  | @received ptr packet hptr hp hreceived =>
    have hstatus := hreceived.status_eq
    cases hwakes : node.wakesOn packet with
    | false =>
      rw [hwakes] at hstatus
      exact .same hstatus
    | true =>
      rw [hwakes, if_pos rfl] at hstatus
      have hcall := hwakes
      rw [Node.wakesOn_eq, Bool.and_eq_true] at hcall
      exact .wakes (Node.asleep_of_wakesOn hwakes) hstatus hptr hp hcall.2
  | timed hnone htimed =>
    have hstatus := htimed.status_eq
    split at hstatus
    · rename_i hdue
      exact .awakes hdue.1 hstatus hnone hdue.2
    · exact .same hstatus

/-- No node falls asleep. -/
theorem StatusMove.stays_asleep {Front : Type} {w : World Front} {node node' : Node}
    {e : QueueEvent} (h : StatusMove w node e node') (hasleep : node'.status = .asleep) :
    node.status = .asleep := by
  cases h with
  | same hstatus => rw [← hstatus, hasleep]
  | wakes hbefore => exact hbefore
  | awakes _ hawake =>
    rw [hawake] at hasleep
    cases hasleep

/-! ## Silence -/

section Silent

variable {F Front : Type} {ops : FloatOps F} {node : Node} {vtime : VTime}

/-- A node that has heard of nobody finds no route. -/
theorem nodeRouteMfr_of_new (h : node.neighTable = neighTableNew) (destId : NodeId) (destLoc : Loc)
    (maxstrat : Int) : nodeRouteMfr node destId destLoc maxstrat = nodeIdInvalid := by
  rw [nodeRouteMfr]
  cases (maxstrat + 2).toNat with
  | zero => rfl
  | succ fuel =>
    rw [routeMfrFrom, h]
    rfl

/-- A node that has heard of nobody passes nothing on. -/
theorem nodeForwardData_of_new {callback : NodeCallback Front}
    (h : node.neighTable = neighTableNew) (data : PacketData) :
    nodeForwardData callback node vtime data = return () := by
  rw [nodeForwardData, nodeRouteMfr_of_new h]
  rfl

/-- A node that sleeps and is not woken does nothing with what it receives, unless it is a flood. -/
theorem wp_nodeReceive_asleep {callback : NodeCallback Front} {w : World Front} {ptr : Nat}
    {packet : Packet} (hasleep : node.status = .asleep) (htable : node.neighTable = neighTableNew)
    (hp : w.heap[ptr]? = some packet) (hquiet : node.wakesOn packet = false)
    (hflood : packet.data.headD 0 ≠ packetTypeFlood) :
    Wp (nodeReceive callback node vtime ptr) (fun node' w' => node' = node ∧ w' = w)
      (fun _ => True) w := by
  refine wp_nodeReceive_unwoken hp hquiet (fun _ => trivial) (fun _ _ _ => trivial)
    (fun _ _ _ hawake => absurd hasleep hawake) (fun htype => absurd htype hflood) (fun _ => ?_)
    ⟨rfl, rfl⟩
  rw [nodeReceiveData]
  split
  · trivial
  · dsimp only
    rw [nodeForwardData_of_new htable]
    split
    · exact ⟨rfl, rfl⟩
    · split
      · exact ⟨rfl, rfl⟩
      · exact ⟨rfl, rfl⟩

/-- Node `j` has no timer and has never passed a packet to the callback. -/
def Silent (j : NodeId) (w : World Traced) : Prop :=
  timers j.toNat w.front.pending = 0 ∧ ∀ b ∈ w.front.log.sends, b.node ≠ j

variable {id j : NodeId} {w : World Traced}

/-- What other nodes do leaves a node silent. -/
theorem silent_keptNewTimer (hne : id ≠ j) :
    KeptNewTimer tracedCallback id vtime (fun _ => True) (fun _ => True) (Silent j) where
  skip _ h := h
  sendNew data hnil _ w h := by
    refine (wp_sendNew_traced trivial trivial hnil).imp fun _ w' hw' => ?_
    obtain ⟨queue, hpending, rfl⟩ := hw'
    refine ⟨?_, fun b hb => ?_⟩
    · have hnew : ∀ e ∈ (w.medium.arrivals (w.nextSend id vtime) data.length : Multiset QueueEvent),
          e.packet ≠ none := fun e he => by
        rw [Medium.packet_of_mem_arrivals (Multiset.mem_coe.mp he)]
        exact Option.some_ne_none _
      rw [World.sent_pending, hpending, timers_add hnew]
      exact h.1
    · rcases List.mem_append.mp hb with hb | hb
      · exact h.2 b hb
      · rw [List.mem_singleton.mp hb]
        exact hne
  timer w delay extra _ h := by
    rw [tracedCallback, recordSend, wp_bind, wp_pure, wp_besideLog]
    refine wp_simCallback_timer trivial (fun _ => h) fun _ queue hqueue => ⟨?_, h.2⟩
    have hother : (timerEvent id (vtime.after delay) extra
        ((w.mapFront Logged.sim).rand 0)).node ≠ some j.toNat := fun heq =>
      hne (UInt16.toNat_inj.mp (Option.some.inj heq))
    change timers j.toNat queue.pending = 0
    rw [hqueue, timers_cons, if_neg fun h => hother h.2]
    exact h.1

/-- Handling an event of another node leaves a node silent. -/
theorem wp_tracedHandle_silent {e : QueueEvent} (hne : node.id ≠ j)
    (hknown : ∀ p ∈ w.heap, Known p.data) (h : Silent j w) :
    Wp (tracer.handle ops node e) (fun _ => Silent j) (fun _ => True) w := by
  have hkept : KeptNewTimer tracedCallback node.id e.vtime (fun _ => True) (fun _ => True)
      (Silent j) := silent_keptNewTimer hne
  cases hptr : e.packet with
  | some ptr =>
    rw [Logger.wp_handle_packet hptr]
    refine wp_nodeReceive_read trivial fun p hp => ?_
    refine (hkept.wp_nodeReceive (fun _ _ _ => trivial) hp (fun _ => trivial)
      (fun _ _ _ => trivial) (fun _ _ _ _ _ => trivial) (fun _ _ => trivial)
      (fun hflood => absurd hflood (hknown p (List.mem_of_getElem? hp)).not_flood)
      h).imp fun node' w' hw' => ?_
    rw [packetFree, wp_bind]
    exact wp_packetRead trivial fun _ _ => hw'
  | none =>
    rw [Logger.wp_handle_timer hptr]
    exact hkept.keeps_nodeTimer (fun _ _ => trivial) e.extra _ h

/-- A node that sleeps stays as it is and silent, or is woken. -/
theorem wp_tracedHandle_asleep {e : QueueEvent} (hasleep : node.status = .asleep)
    (htable : node.neighTable = neighTableNew) (hpacket : e.packet ≠ none)
    (hknown : ∀ p ∈ w.heap, Known p.data) (h : Silent node.id w) :
    Wp (tracer.handle ops node e)
      (fun node' w' => node'.status = .asleep → node' = node ∧ Silent node.id w')
      (fun _ => True) w := by
  cases hptr : e.packet with
  | none => exact absurd hptr hpacket
  | some ptr =>
    rw [Logger.wp_handle_packet hptr]
    refine wp_nodeReceive_read trivial fun p hp => ?_
    cases hwakes : node.wakesOn p with
    | true =>
      refine (wp_nodeReceive_node hp).imp fun node' w' hreceived => ?_
      have hstatus := hreceived.status_eq
      rw [hwakes, if_pos rfl] at hstatus
      refine (wp_true _ _).imp fun _ _ _ hasleep' => ?_
      rw [hstatus] at hasleep'
      cases hasleep'
    | false =>
      refine (wp_nodeReceive_asleep hasleep htable hp hwakes
        (hknown p (List.mem_of_getElem? hp)).not_flood).imp fun node' w' hsame => ?_
      obtain ⟨rfl, rfl⟩ := hsame
      rw [packetFree, wp_bind]
      exact wp_packetRead trivial fun _ _ _ => ⟨rfl, h⟩

end Silent

/-! ## Every run -/

/-- Between two events, a node that sleeps has heard of nobody, and is silent. -/
def SleepersSilent (t : TracedSim) : Prop :=
  ∀ i (node : Node), t.nodes[i]? = some node → node.id.toNat = i ∧
    (node.status = .asleep → node.neighTable = neighTableNew ∧ Silent node.id t.world)

section Runs

variable {F : Type} {ops : FloatOps F} {m : Medium} {done : Multiset QueueEvent}
  {t t' : TracedSim} {e : QueueEvent}

/-- Route tests leave a node that has heard of nobody silent. -/
theorem wp_tracedTick_silent {tick i : Nat} {vtime vtimeTick : VTime} {node : Node}
    {nodes : List Node} {w : World Traced}
    (hplaced : ∀ k (node : Node), nodes[k]? = some node → node.id.toNat = k)
    (hnode : nodes[i]? = some node) (htable : node.neighTable = neighTableNew)
    (h : Silent node.id w) :
    Wp (tracer.tick tick nodes vtime vtimeTick) (fun _ => Silent node.id) (fun _ => True) w := by
  have htest : ∀ node₁ ∈ nodes, Keeps (Silent node.id) (fun _ => True)
      (nodeRouteTest tracedCallback node₁ vtimeTick) := by
    intro node₁ hmem
    obtain ⟨k, hk⟩ := List.getElem?_of_mem hmem
    by_cases hid : node₁.id = node.id
    · have hki : k = i := by rw [← hplaced k node₁ hk, ← hplaced i node hnode, hid]
      obtain rfl : node₁ = node := by
        rw [hki, hnode] at hk
        exact (Option.some.inj hk).symm
      rw [nodeRouteTest, nodeForwardData_of_new htable]
      exact keeps_pure ()
    · exact (silent_keptNewTimer hid).toKeptNew.keeps_nodeRouteTest fun _ _ => trivial
  have hkeeps : Keeps (Silent node.id) (fun _ => True)
      (tracer.tick tick nodes vtime vtimeTick) :=
    Logger.keeps_tick (fun _ _ => trivial) (fun _ _ _ hw => hw) htest
  exact hkeeps w h

/-- Taking an event out of the queue leaves a node silent. -/
theorem Silent.pop {j : NodeId} {queue : EventQueue} (h : Silent j t.world)
    (hpending : t.world.front.pending = e ::ₘ queue.pending) :
    Silent j (t.world.setFront (t.world.front.setQueue queue)) := by
  have htimers := h.1
  rw [hpending, timers_cons] at htimers
  exact ⟨Nat.eq_zero_of_add_eq_zero_right htimers, h.2⟩

/-- An event of a node that is silent is no timer. -/
theorem Silent.packet_ne_none {j : NodeId} {queue : EventQueue} (h : Silent j t.world)
    (hpending : t.world.front.pending = e ::ₘ queue.pending) (hnode : e.node = some j.toNat) :
    e.packet ≠ none := by
  intro hnone
  have htimers := h.1
  rw [hpending, timers_cons, if_pos ⟨hnone, hnode⟩] at htimers
  cases htimers

/-- A turn of the main loop leaves the nodes that sleep silent. -/
theorem SleepersSilent.step (h : SleepersSilent t) (haccounts : Accounts m done 0 t.world)
    (hstep : TracedStep ops t e t') : SleepersSilent t' := by
  obtain ⟨queue, tested, world, vtimeTick, i, node, node', hpending, htick, hi, hnode, hhandle,
    rfl⟩ := hstep.turn.ran
  have hplaced : ∀ k (node : Node), t.nodes[k]? = some node → node.id.toNat = k :=
    fun k node hk => (h k node hk).1
  have hknown := ((haccounts.hold hpending).tick htick).known
  have htested : ∀ k (node₁ : Node), t.nodes[k]? = some node₁ → node₁.status = .asleep →
      node₁.neighTable = neighTableNew ∧ Silent node₁.id tested := fun k node₁ hk hasleep => by
    obtain ⟨htable, hsilent⟩ := (h k node₁ hk).2 hasleep
    exact ⟨htable, (wp_tracedTick_silent hplaced hk htable (hsilent.pop hpending)).of_ok htick⟩
  intro k node₁ hk
  rcases eq_or_ne i k with rfl | hik
  · rw [List.getElem?_set_self (List.getElem?_eq_some_iff.mp hnode).1] at hk
    obtain rfl : node' = node₁ := Option.some.inj hk
    have hafter := Logger.wp_handle_node.of_ok hhandle
    refine ⟨by rw [hafter.id_eq, hplaced i node hnode], fun hasleep' => ?_⟩
    have hasleep := hafter.statusMove.stays_asleep hasleep'
    obtain ⟨htable, hsilent⟩ := htested i node hnode hasleep
    have hpacket := ((h i node hnode).2 hasleep).2.packet_ne_none hpending
      (by rw [hi, hplaced i node hnode])
    obtain ⟨rfl, hsilent'⟩ :=
      (wp_tracedHandle_asleep hasleep htable hpacket hknown hsilent).of_ok hhandle hasleep'
    exact ⟨htable, hsilent'⟩
  · rw [List.getElem?_set_ne hik] at hk
    refine ⟨hplaced k node₁ hk, fun hasleep => ?_⟩
    obtain ⟨htable, hsilent⟩ := htested k node₁ hk hasleep
    refine ⟨htable, (wp_tracedHandle_silent (fun hid => hik ?_) hknown hsilent).of_ok hhandle⟩
    rw [← hplaced i node hnode, ← hplaced k node₁ hk, hid]

/-- A node that asks for no timer when it is initialised is silent after the start. -/
theorem keeps_tracedNodes_silent {nodeOpts : List Char} {n j : Nat} (hn : n ≤ 2 ^ 16) (hj : j < n)
    (hnot : ¬ StartsTimer nodeOpts j) :
    Keeps (Silent (UInt16.ofNat j)) (fun _ => True) (tracer.nodes nodeOpts n) := by
  refine keeps_mapM fun i hi => ?_
  rw [List.mem_range] at hi
  by_cases hid : UInt16.ofNat i = UInt16.ofNat j
  · have hij : i = j := by
      rw [← UInt16.toNat_inj, UInt16.toNat_ofNat', UInt16.toNat_ofNat'] at hid
      omega
    subst hij
    rw [startsTimer_iff (hi.trans_le hn), not_or] at hnot
    exact fun w h => wp_nodeInit (fun hroot => absurd hroot hnot.1)
      (fun hawake => absurd hawake hnot.2) fun _ _ _ _ => h
  · exact (silent_keptNewTimer hid).keeps_nodeInit nodeOpts

theorem sleepersSilent_start {args : SimArgs} {tape : Nat → Fin randRange}
    {uninit : Nat → List UInt8} (h : tracer.start .blank args tape uninit = .ok t) :
    SleepersSilent t := by
  obtain ⟨topo, dims, nodes, world, -, hnodes, rfl⟩ := Logger.start_cases h
  have hmax : topo.maxId.toNat + 1 ≤ 2 ^ 16 := Nat.succ_le_of_lt topo.maxId.toNat_lt
  intro j node hnode
  obtain ⟨hj, hstart⟩ := forall₂_range ((wp_startNodes hmax).of_ok hnodes) hnode
  refine ⟨hstart.id_eq (hj.trans_le hmax), fun hasleep => ⟨hstart.initial.table_eq, ?_⟩⟩
  rw [hstart.initial.id_eq]
  have hblank : Silent (UInt16.ofNat j)
      (loggedWorld .blank (simBlank topo dims (simEschaton args.timeout) tape uninit)) :=
    ⟨rfl, fun b hb => absurd hb List.not_mem_nil⟩
  exact (keeps_tracedNodes_silent hmax hj (hstart.asleep_iff.mp hasleep) _ hblank).of_ok hnodes

/-- Nodes that sleep are silent in every state of every run. -/
theorem TracedRun.sleepersSilent {args : SimArgs} {tape : Nat → Fin randRange}
    {uninit : Nat → List UInt8} {events : List QueueEvent}
    (h : TracedRun ops args tape uninit events t) : SleepersSilent t := by
  obtain ⟨t₀, hstart, hrun⟩ := h
  obtain ⟨topo, -, hzero⟩ := accounts_start hstart
  refine (hrun.keeps_labels (I := fun events t =>
    Accounts _ (↑events : Multiset QueueEvent) 0 t.world ∧ SleepersSilent t) ?_
    ⟨hzero, sleepersSilent_start hstart⟩).2
  intro done t e t' hdone hstep
  refine ⟨?_, hdone.2.step hdone.1 hstep⟩
  rw [← Multiset.coe_add, add_comm, Multiset.coe_singleton, Multiset.singleton_add]
  exact hdone.1.step hstep

end Runs

end OldRadio.Second
