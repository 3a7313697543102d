import OldRadio.Second.FloodSpread
import OldRadio.Second.SimTime

/-!
# Floods die out where the hold-off covers the net

Nothing but the hold-off tells a node that a flood has come back, so a node
broadcasts a flood once if no copy can take that much longer than another one to
get to it, and may broadcast it again if one can. Two nodes that hear each other
are enough for a packet that takes half a second.
-/

namespace OldRadio.Second

open Library
open Node (M)

/-! ## The start -/

section Start

variable {args : SimArgs} {tape : Nat → Fin randRange} {uninit : Nat → List UInt8} {topo : Topo}
  {eschaton : VTime}

/-- There are no packets yet. -/
structure NoPackets (topo : Topo) (eschaton : VTime) (w : World SimFront) : Prop where
  /-- None is allocated. -/
  heap_eq : w.heap = []
  /-- None is on its way. -/
  timers : ∀ e ∈ w.pending, e.packet = none
  /-- The network. -/
  topo_eq : w.front.topo = topo
  /-- `Eschaton`. -/
  eschaton_eq : w.front.eschaton = eschaton

/-- Asking for timers makes no packets. -/
theorem noPackets_keptNewTimer (id : NodeId) :
    KeptNewTimer simCallback id vtimeZero (fun _ => False) (fun _ => True)
      (NoPackets topo eschaton) where
  skip _ h := ⟨h.heap_eq, h.timers, h.topo_eq, h.eschaton_eq⟩
  sendNew _ _ hnever := hnever.elim
  timer w delay extra _ h := by
    refine wp_simCallback_timer trivial (fun _ => ?_) fun _ queue hqueue => ?_
    · exact ⟨h.heap_eq, h.timers, h.topo_eq, h.eschaton_eq⟩
    · refine ⟨h.heap_eq, fun e he => ?_, h.topo_eq, h.eschaton_eq⟩
      rw [World.setQueue_pending, hqueue] at he
      rcases Multiset.mem_cons.mp he with rfl | he
      · rfl
      · exact h.timers e he

/-- A new node has passed on nothing. -/
theorem wp_nodeInit_noPackets (id : NodeId) (nodeOpts : List Char) {w : World SimFront}
    (h : NoPackets topo eschaton w) :
    Wp (nodeInit (some simCallback) id nodeOpts)
      (fun node w' => (node.id = id ∧ node.floodTimeout = vtimeZero) ∧ NoPackets topo eschaton w')
      (fun _ => True) w := by
  have hkept : KeptNewTimer simCallback id vtimeZero (fun _ => False) (fun _ => True)
      (NoPackets topo eschaton) := noPackets_keptNewTimer id
  refine wp_nodeInit (fun _ _ _ => ?_) (fun _ _ _ => ?_) fun _ _ _ _ => ?_
  · exact (hkept.timer _ _ _ (by decide) (hkept.skips _ h)).imp fun _ _ hw' => ⟨⟨rfl, rfl⟩, hw'⟩
  · exact (hkept.timer _ _ _ (beaconDelay_le (w.rand_lt _)) (hkept.skips _ h)).imp
      fun _ _ hw' => ⟨⟨rfl, rfl⟩, hw'⟩
  · exact ⟨⟨rfl, rfl⟩, hkept.skips _ h⟩

/-- What the start leaves before a packet is handed in. -/
theorem simStart_noPackets {s : Sim} (h : simStart args tape uninit = .ok s) :
    ∃ topo, topoRead args.links = .ok topo ∧ NoPackets topo (simEschaton args.timeout) s.world ∧
      Placed s.nodes ∧ ∀ (i : Nat) (node : Node), s.nodes[i]? = some node →
        node.floodTimeout = vtimeZero := by
  obtain ⟨topo, dims, nodes, world, htopo, -, hnodes, rfl⟩ := simStart_cases h
  have hblank : NoPackets topo (simEschaton args.timeout)
      (simBlank topo dims (simEschaton args.timeout) tape uninit) :=
    ⟨rfl, fun e he => absurd he (Multiset.notMem_zero e), rfl, rfl⟩
  have hrun : Wp (simNodes args.nodeOpts (topo.maxId.toNat + 1)) (fun nodes w =>
      List.Forall₂ (fun i node => node.id = UInt16.ofNat i ∧ node.floodTimeout = vtimeZero)
        (List.range (topo.maxId.toNat + 1)) nodes ∧
      NoPackets topo (simEschaton args.timeout) w) (fun _ => True) _ :=
    wp_mapM (fun _ => NoPackets topo (simEschaton args.timeout)) _
      (fun i _ w hw => wp_nodeInit_noPackets (UInt16.ofNat i) args.nodeOpts hw) hblank
  obtain ⟨hinitial, hworld⟩ := hrun.of_ok hnodes
  refine ⟨topo, htopo, hworld, fun i node hnode => ?_, fun i node hnode => ?_⟩
  · obtain ⟨hi, hid, -⟩ := forall₂_range hinitial hnode
    have hmax := topo.maxId.toNat_lt
    rw [hid, UInt16.toNat_ofNat']
    exact Nat.mod_eq_of_lt (show i < 2 ^ 16 by omega)
  · exact (forall₂_range hinitial hnode).2.2

/-- Handing in a packet where there is none. -/
theorem wp_floodInject {source : NodeId} {vtime : VTime} {data : List UInt8} (hne : data ≠ [])
    {w : World SimFront} (h : NoPackets topo eschaton w) :
    Wp (floodInject source vtime data) (fun _ w' => FloodWorld data topo eschaton w' ∧
      w'.floods.map floodCopy = {(source, vtime.toNat)}) (fun _ => True) w := by
  rw [floodInject, wp_bind, wp_packetAlloc hne]
  refine wp_simInsert trivial fun queue hqueue => ?_
  have hheap : ((w.push { refcount := 1, data }).setQueue queue).heap =
      [{ refcount := 1, data }] := by
    rw [World.setQueue, World.setFront_heap, World.push, h.heap_eq, List.nil_append]
  refine ⟨⟨⟨{ refcount := 1, data }, by rw [hheap]; rfl, rfl⟩, fun ptr p hne hp => ?_, h.topo_eq,
    h.eschaton_eq⟩, ?_⟩
  · rw [hheap, List.getElem?_cons, if_neg hne, List.getElem?_nil] at hp
    cases hp
  · have hnone : ∀ e ∈ (w.push { refcount := 1, data }).pending, ¬ Carries 0 e := fun e he hc => by
      rw [Carries, h.timers e he] at hc
      cases hc
    have hcarries : Carries 0 ⟨vtime, some source.toNat, some ([] : List Packet).length, none⟩ :=
      rfl
    rw [World.floods, World.setQueue_pending, hqueue, h.heap_eq,
      Multiset.filter_cons_of_pos _ hcarries, Multiset.filter_eq_nil.mpr hnone]
    simp [floodCopy]

/-- The flood is the one that begins with the packet handed in. -/
theorem floodStart_flood {source : NodeId} {vtime : VTime} {data : List UInt8} (hne : data ≠ [])
    {s : Sim} (h : floodStart args tape uninit source vtime data = .ok s) :
    (∃ topo, FloodSim args data topo s) ∧ s.flood = Flood.start source vtime.toNat := by
  obtain ⟨s₀, hstart, h⟩ := bind_eq_ok h
  obtain ⟨⟨⟨⟩, world⟩, hinject, h⟩ := bind_eq_ok h
  cases h
  obtain ⟨topo, htopo, hnone, hplaced, htimeouts⟩ := simStart_noPackets hstart
  obtain ⟨hworld, hcopies⟩ := (wp_floodInject hne hnone).of_ok hinject
  refine ⟨⟨topo, htopo, hworld, hplaced⟩, ?_⟩
  rw [Sim.flood, Flood.start, Flood.mk.injEq]
  refine ⟨funext fun id => ?_, hcopies⟩
  cases hnode : s₀.nodes[id.toNat]? with
  | none => rfl
  | some node =>
    rw [Option.map_some, Option.getD_some, htimeouts _ node hnode]
    rfl

end Start

variable {F : Type} {args : SimArgs} {tape : Nat → Fin randRange} {uninit : Nat → List UInt8}
  {source : NodeId} {vtime : VTime} {data : List UInt8} {s₀ s : Sim} {events : List FloodEvent}

/-- A run of the simulator is a run of the flood, and has its broadcasts. -/
theorem rebroadcasts_le {ops : FloatOps F} (htype : data.headD 0 = packetTypeFlood)
    (hstart : floodStart args tape uninit source vtime data = .ok s₀)
    (hrun : Run (fun s l s' => FloodStep ops s l s' ∧ FloodRoom data.length l.event.vtime) s₀
      events s) :
    ∃ taken, Run (floodNet args data.length).Step (Flood.start source vtime.toNat) taken s.flood ∧
      ∀ id, rebroadcasts id events ≤ sendings id taken := by
  have hne : data ≠ [] := by
    rintro rfl
    exact absurd htype (by decide)
  obtain ⟨⟨topo, hsim⟩, hflood⟩ := floodStart_flood hne hstart
  refine ⟨events.filterMap FloodEvent.take, hflood ▸ hrun.refines (I := FloodSim args data topo)
    (fun s l t hs hstep => FloodStep.refines htype hs hstep.1 hstep.2) hsim, fun id => ?_⟩
  have hcarries := hrun.forall_labels
    (P := fun l : FloodEvent => l.rebroadcast = true → Carries 0 l.event)
    (fun s l t hs hstep => ⟨(FloodStep.refines htype hs hstep.1 hstep.2).1,
      fun hsends => FloodStep.carries htype hs hstep.1 hsends⟩) hsim
  rw [rebroadcasts, sendings, List.countP_filterMap]
  refine List.countP_mono_left fun l hl hpassed => ?_
  obtain ⟨hnode, hsends⟩ := of_decide_eq_true hpassed
  rw [FloodEvent.take, if_pos (hcarries l hl hsends)]
  simp [floodCopy, hnode, hsends]

/-- Where nodes hear each other, a packet of at most 498 bytes is back before the hold-off ends. -/
theorem floodNet_covered {length : Nat} (htwoWay : ∀ a b, args.Hears a b → args.Hears b a)
    (hshort : length ≤ 498) (source : NodeId) : (floodNet args length).Covered source := by
  refine FloodNet.covered_of_twoWay htwoWay ?_ source
  rintro _ _ ⟨r, -, rfl⟩ ⟨r', -, rfl⟩
  have hr : r % simPropDelayFuzz < 1000 := Nat.mod_lt _ (by decide)
  have hr' : r' % simPropDelayFuzz < 1000 := Nat.mod_lt _ (by decide)
  show _ ≤ 1 * vtimeSeconds
  unfold propDelay simPropDelayMin simPropDelayBase simPropDelayPerbyte vtimeMicros vtimeSeconds
  omega

/-- Some turns of the simulator that can be computed. -/
theorem exists_floodRun {ops : FloatOps F} (n : Nat) {P : List FloodEvent → Prop}
    [DecidablePred P]
    (h : (do
      let s ← floodStart args tape uninit source vtime data
      let (events, _) ← runFor (floodStep ops) n s
      return decide ((∀ l ∈ events, FloodRoom data.length l.event.vtime) ∧ P events)) =
        Except.ok true) :
    ∃ s₀ s events, floodStart args tape uninit source vtime data = .ok s₀ ∧
      Run (fun s l s' => FloodStep ops s l s' ∧ FloodRoom data.length l.event.vtime) s₀ events s ∧
      P events := by
  obtain ⟨s₀, hstart, h⟩ := bind_eq_ok h
  obtain ⟨⟨events, s⟩, hrun, h⟩ := bind_eq_ok h
  obtain ⟨hroom, hP⟩ := of_decide_eq_true (Except.ok.inj h)
  exact ⟨s₀, s, events, hstart, (Run.of_runFor hrun).and_labels hroom, hP⟩

/-- On a net that is covered each node broadcasts a flood at most once in every run. -/
theorem flood_once (ops : FloatOps F) (htype : data.headD 0 = packetTypeFlood)
    (hcovered : (floodNet args data.length).Covered source)
    (hstart : floodStart args tape uninit source vtime data = .ok s₀)
    (hrun : Run (fun s l s' => FloodStep ops s l s' ∧ FloodRoom data.length l.event.vtime) s₀
      events s) (id : NodeId) : rebroadcasts id events ≤ 1 := by
  obtain ⟨taken, htaken, hle⟩ := rebroadcasts_le htype hstart hrun
  exact (hle id).trans (FloodNet.sendings_le_one hcovered htaken id)

/-- Two nodes that hear each other and are asleep. -/
def sleepingNodes : SimArgs := { twoNodes with nodeOpts := [] }

theorem flood_once_sleepingNodes : ∃ s₀ s events,
    floodStart sleepingNodes (fun _ => 0) (fun _ => []) 0 1 [packetTypeFlood, 1, 2] = .ok s₀ ∧
      Run (fun s l s' => FloodStep integerOps s l s' ∧ FloodRoom 3 l.event.vtime) s₀ events s ∧
      (events.length = 3 ∧ rebroadcasts 1 events = 1) ∧ rebroadcasts 0 events ≤ 1 := by
  obtain ⟨s₀, s, events, hstart, hrun, hevents⟩ : ∃ s₀ s events,
      floodStart sleepingNodes (fun _ => 0) (fun _ => []) 0 1 [packetTypeFlood, 1, 2] = .ok s₀ ∧
        Run (fun s l s' => FloodStep integerOps s l s' ∧ FloodRoom 3 l.event.vtime) s₀ events s ∧
        (events.length = 3 ∧ rebroadcasts 1 events = 1) :=
    exists_floodRun 3 (by decide +kernel)
  have htwoWay : ∀ a b, sleepingNodes.Hears a b → sleepingNodes.Hears b a := by
    rintro a b ⟨hne, l, hl, rfl, rfl⟩
    refine ⟨hne.symm, { src := l.dst, dst := l.src, prob := 0 }, ?_, rfl, rfl⟩
    simp only [sleepingNodes, twoNodes, List.mem_cons, List.not_mem_nil, or_false] at hl ⊢
    rcases hl with rfl | rfl
    · exact Or.inr rfl
    · exact Or.inl rfl
  exact ⟨s₀, s, events, hstart, hrun, hevents,
    flood_once integerOps rfl (floodNet_covered htwoWay (by decide) 0) hstart hrun 0⟩

/-- A flood of 500 bytes. -/
def longFlood : List UInt8 := packetTypeFlood :: List.replicate 499 0

/-- A packet of 500 bytes takes more than a second to the other node and back, and is broadcast
again. -/
theorem flood_again : ∃ s₀ s events,
    floodStart sleepingNodes (fun _ => 0) (fun _ => []) 0 1 longFlood = .ok s₀ ∧
      Run (fun s l s' => FloodStep integerOps s l s' ∧
        FloodRoom longFlood.length l.event.vtime) s₀ events s ∧
      ¬ rebroadcasts 0 events ≤ 1 :=
  exists_floodRun 3 (by decide +kernel)

end OldRadio.Second
