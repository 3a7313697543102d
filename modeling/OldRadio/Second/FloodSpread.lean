import OldRadio.Second.DataPackets
import OldRadio.Second.Flood

/-!
# The simulator spreads a flood

The simulator refines a flood with a hold-off: events that carry the flood are
its copies, a turn that handles one is a step, and every other turn leaves the
flood as it is.
-/

namespace OldRadio.Second

open Library
open Node (M)

/-! ## Everything else leaves the flood alone -/

/-- The first packet is the flood, and the only one. -/
structure FloodWorld (data : List UInt8) (topo : Topo) (eschaton : VTime) (w : World SimFront) :
    Prop where
  /-- The flood keeps its bytes. -/
  flood : ∃ p, w.heap[0]? = some p ∧ p.data = data
  /-- No other packet is a flood. -/
  others : ∀ (ptr : Nat) (p : Packet), ptr ≠ 0 → w.heap[ptr]? = some p →
    p.data.headD 0 ≠ packetTypeFlood
  /-- The topology does not change. -/
  topo_eq : w.front.topo = topo
  /-- `Eschaton` does not change. -/
  eschaton_eq : w.front.eschaton = eschaton

/-- The copies of the flood in the queue. -/
def World.floods (w : World SimFront) : Multiset QueueEvent := w.pending.filter (Carries 0)

section Quiet

variable {data : List UInt8} {topo : Topo} {eschaton : VTime} {copies : Multiset QueueEvent}
  {id : NodeId} {vtime : VTime} {w : World SimFront}

theorem FloodWorld.poke (h : FloodWorld data topo eschaton w) {ptr n : Nat} {p : Packet}
    (hp : w.heap[ptr]? = some p) :
    FloodWorld data topo eschaton (w.poke ptr { p with refcount := n }) := by
  refine ⟨?_, fun i q hi hq => ?_, h.topo_eq, h.eschaton_eq⟩
  · obtain ⟨q, hq, hflood⟩ := h.flood
    obtain ⟨q', hq', hdata⟩ := exists_heap_poke hp hq
    exact ⟨q', hq', hdata.trans hflood⟩
  · obtain ⟨q', hq', hdata⟩ := exists_of_heap_poke hp hq
    rw [← hdata]
    exact h.others i q' hi hq'

theorem FloodWorld.push (h : FloodWorld data topo eschaton w) {new : List UInt8}
    (hnew : new.headD 0 ≠ packetTypeFlood) :
    FloodWorld data topo eschaton (w.push { refcount := 1, data := new }) := by
  obtain ⟨p, hp, hdata⟩ := h.flood
  refine ⟨⟨p, heap_push hp _, hdata⟩, fun i q hi hq => ?_, h.topo_eq, h.eschaton_eq⟩
  rcases Nat.lt_or_ge i w.heap.length with hlt | hge
  · rw [World.push, List.getElem?_append_left hlt] at hq
    exact h.others i q hi hq
  · rw [World.push, List.getElem?_append_right hge] at hq
    rw [List.mem_singleton.mp (List.mem_of_getElem? hq)]
    exact hnew

/-- Packets that are no floods are delivered beside the flood. -/
theorem floodWorld_delivers (htype : data.headD 0 = packetTypeFlood) :
    Delivers id vtime (fun new => new.headD 0 ≠ packetTypeFlood)
      (fun w => FloodWorld data topo eschaton w ∧ w.floods = copies) where
  skip _ h := ⟨⟨h.1.flood, h.1.others, h.1.topo_eq, h.1.eschaton_eq⟩, h.2⟩
  push _ _ hnew h := ⟨h.1.push hnew, h.2⟩
  poke _ _ _ _ hp h := ⟨h.1.poke hp, h.2⟩
  deliver w ptr p t r queue hp hnew _ hqueue h := by
    refine ⟨⟨h.1.flood, h.1.others, h.1.topo_eq, h.1.eschaton_eq⟩, ?_⟩
    rw [World.floods, World.setQueue_pending, hqueue, Multiset.filter_cons_of_neg, ← h.2]
    · rfl
    · intro hcarries
      obtain ⟨q, hq, hdata⟩ := h.1.flood
      cases hcarries
      cases hq.symm.trans hp
      rw [hdata] at hnew
      exact hnew htype

/-- So are timers. -/
theorem floodWorld_keptTimer (htype : data.headD 0 = packetTypeFlood) :
    KeptTimer simCallback id vtime (fun new => new.headD 0 ≠ packetTypeFlood) (fun _ => True)
      (fun w => FloodWorld data topo eschaton w ∧ w.floods = copies) where
  toKept := (floodWorld_delivers htype).kept
  timer w delay extra _ h := by
    have hkept : FloodWorld data topo eschaton (w.skip 1) :=
      ⟨h.1.flood, h.1.others, h.1.topo_eq, h.1.eschaton_eq⟩
    refine wp_simCallback_timer trivial (fun _ => ⟨hkept, h.2⟩) fun _ queue hqueue => ?_
    refine ⟨⟨hkept.flood, hkept.others, hkept.topo_eq, hkept.eschaton_eq⟩, ?_⟩
    rw [World.floods, World.setQueue_pending, hqueue, Multiset.filter_cons_of_neg, ← h.2]
    · rfl
    · exact fun hcarries => by cases hcarries

/-- A packet that is no flood leaves the node its silence. -/
theorem wp_nodeReceive_silence {Front : Type} {callback : NodeCallback Front} {w : World Front}
    {node : Node} {ptr : Nat} {packet : Packet} (hp : w.heap[ptr]? = some packet)
    (htype : packet.data.headD 0 ≠ packetTypeFlood) :
    Wp (nodeReceive callback node vtime ptr)
      (fun node' _ => node'.id = node.id ∧ node'.floodTimeout = node.floodTimeout)
      (fun _ => True) w := by
  cases hwakes : node.wakesOn packet with
  | true => exact wp_nodeReceive_woken hp hwakes fun _ _ _ _ _ => ⟨rfl, rfl⟩
  | false =>
    refine wp_nodeReceive_unwoken hp hwakes (fun _ => trivial) (fun _ _ _ => trivial)
      (fun neighs _ hparse _ => ?_) (fun hflood => absurd hflood htype) (fun _ => ?_) ⟨rfl, rfl⟩
    · exact wp_nodeRecord _ _ (beaconParse_ne_nil hparse) (fun _ => trivial) fun _ _ => ⟨rfl, rfl⟩
    · exact (wp_true _ _).imp fun _ _ _ => ⟨rfl, rfl⟩

variable {F : Type} {ops : FloatOps F} {node : Node} {e : QueueEvent}

/-- Handling an event that does not carry the flood. -/
theorem wp_floodHandle_other (htype : data.headD 0 = packetTypeFlood)
    (h : FloodWorld data topo eschaton w) (he : ¬ Carries 0 e) :
    Wp (floodHandle ops node e) (fun node' w' =>
      (node'.id = node.id ∧ node'.floodTimeout = node.floodTimeout) ∧
        FloodWorld data topo eschaton w' ∧ w'.floods = w.floods) (fun _ => True) w := by
  have hkept : KeptTimer simCallback node.id e.vtime (fun new => new.headD 0 ≠ packetTypeFlood)
      (fun _ => True) (fun w' => FloodWorld data topo eschaton w' ∧ w'.floods = w.floods) :=
    floodWorld_keptTimer htype
  unfold floodHandle
  cases hptr : e.packet with
  | none =>
    have hkeeps : Keeps (fun w' => FloodWorld data topo eschaton w' ∧ w'.floods = w.floods)
        (fun _ => True) (nodeTimer ops simCallback node e.vtime e.extra) :=
      hkept.keptNewTimer.keeps_nodeTimer (fun node' _ => by
        show packetTypeBeacon ≠ packetTypeFlood
        decide) e.extra
    refine (wp_nodeTimer_moved.and (hkeeps w ⟨h, rfl⟩)).mono (fun node' w' hw' => ?_)
      fun _ _ => trivial
    obtain ⟨⟨status, virtloc, rfl, -⟩, hw'⟩ := hw'
    exact ⟨⟨rfl, rfl⟩, hw'⟩
  | some ptr =>
    have hne : ptr ≠ 0 := by
      rintro rfl
      exact he hptr
    dsimp only
    rw [wp_bind, floodReceive, wp_bind]
    refine wp_packetRead trivial fun p hp => ?_
    have hother := h.others ptr p hne hp
    rw [if_neg hother]
    have hkeeps := hkept.wp_nodeReceive (fun data hdata => by
        rw [headD_encode, hdata]
        decide) hp (fun _ _ _ => trivial) (fun _ _ => trivial)
      (fun hflood => absurd hflood hother) ⟨h, rfl⟩
    refine ((wp_nodeReceive_silence hp hother).and hkeeps).mono (fun node' w' hw' => ?_)
      fun _ _ => trivial
    rw [wp_bind]
    exact (hkept.toKept.keeps_packetFree ptr w' hw'.2).imp fun _ _ hw'' => ⟨hw'.1, hw''⟩

/-- Route tests leave the flood alone. -/
theorem FloodWorld.tick (htype : data.headD 0 = packetTypeFlood) {nodes : List Node}
    {vtimeTick vtimeTick' : VTime} {w' : World SimFront} (h : FloodWorld data topo eschaton w)
    (htick : simTick nodes vtime vtimeTick w = .ok (vtimeTick', w')) :
    FloodWorld data topo eschaton w' ∧ w'.floods = w.floods := by
  have hkeeps : Keeps (fun w' => FloodWorld data topo eschaton w' ∧ w'.floods = w.floods)
      (fun _ => True) (simTick nodes vtime vtimeTick) :=
    keeps_simTick trivial fun node _ => KeptNew.keeps_nodeRouteTest
      (fun data hdata => by
        rw [headD_encode, hdata]
        decide)
      ((floodWorld_delivers htype).keptNew trivial trivial)
  exact (hkeeps w ⟨h, rfl⟩).of_ok htick

/-! ## Copies of the flood -/

/-- The copies that a node sends of a packet of `length` bytes. -/
def World.floodCopies (w : World SimFront) (id : NodeId) (vtime : VTime) (length : Nat) :
    List QueueEvent :=
  (packetEvents w.tape vtime 0 length (topoIter w.front.topo id) w.drawn).filter
    fun e => e.vtime < w.front.eschaton

theorem FloodWorld.setQueue (h : FloodWorld data topo eschaton w) (queue : EventQueue) :
    FloodWorld data topo eschaton (w.setQueue queue) :=
  ⟨h.flood, h.others, h.topo_eq, h.eschaton_eq⟩

theorem FloodWorld.skip (h : FloodWorld data topo eschaton w) (n : Nat) :
    FloodWorld data topo eschaton (w.skip n) :=
  ⟨h.flood, h.others, h.topo_eq, h.eschaton_eq⟩

/-- Letting go of the flood. -/
theorem wp_floodFree {after : World SimFront → Prop} (h : FloodWorld data topo eschaton w)
    (hafter : ∀ w', FloodWorld data topo eschaton w' → w'.floods = w.floods → after w') :
    Wp (packetFree 0) (fun _ => after) (fun _ => True) w := by
  rw [packetFree, wp_bind]
  exact wp_packetRead trivial fun p hp => hafter _ (h.poke hp) rfl

/-- Handling an event that carries the flood. -/
theorem wp_floodHandle_flood (htype : data.headD 0 = packetTypeFlood)
    (h : FloodWorld data topo eschaton w) (he : Carries 0 e) :
    Wp (floodHandle ops node e) (fun node' w' => FloodWorld data topo eschaton w' ∧
      if node.floodTimeout < e.vtime then
        node' = { node with floodTimeout := e.vtime.after nodeFloodTimeout } ∧
          w'.floods = ↑(w.floodCopies node.id e.vtime data.length) + w.floods
      else node' = node ∧ w'.floods = w.floods) (fun _ => True) w := by
  obtain ⟨p, hp, hdata⟩ := h.flood
  have hptr : e.packet = some 0 := he
  rw [floodHandle, hptr]
  dsimp only
  rw [wp_bind, floodReceive, wp_bind]
  refine wp_packetRead trivial fun p' hp' => ?_
  obtain rfl : p' = p := Option.some.inj (hp'.symm.trans hp)
  rw [if_pos (hdata ▸ htype), nodeSendFlood]
  by_cases hsends : node.floodTimeout < e.vtime
  · simp only [if_pos hsends]
    rw [wp_bind]
    refine (wp_simCallback_packet trivial trivial hp rfl).imp fun _ w' hw' => ?_
    obtain ⟨queue, hpending, rfl⟩ := hw'
    rw [hdata] at hpending
    rw [wp_pure, wp_bind]
    refine wp_floodFree (((h.skip _).poke hp).setQueue queue) fun w' hw' hfloods => ?_
    refine ⟨hw', rfl, ?_⟩
    have hall : ∀ f ∈ w.floodCopies node.id e.vtime data.length, Carries 0 f := fun f hf =>
      packet_of_mem_packetEvents (List.mem_of_mem_filter hf)
    rw [hfloods, World.floods, World.setQueue_pending, hpending, Multiset.filter_add,
      Multiset.filter_eq_self.mpr hall]
    rfl
  · simp only [if_neg hsends]
    rw [wp_pure, wp_bind]
    exact wp_floodFree h fun w' hw' hfloods => ⟨hw', rfl, hfloods⟩

/-- The delay of the copy for a neighbour, which is the outcome of `rand` that its link gets. -/
def World.floodDelay (w : World SimFront) (id : NodeId) (length : Nat) (dst : NodeId) : Nat :=
  propDelay length
    (w.tape (w.drawn + ((topoIter w.front.topo id).map TopoEntry.dst).idxOf dst)).val

theorem mem_packetEvents {tape : Nat → Fin randRange} {ptr length drawn : Nat}
    {links : List TopoEntry} (hnodup : (links.map TopoEntry.dst).Nodup) {f : QueueEvent} :
    f ∈ packetEvents tape vtime ptr length links drawn ↔
      ∃ u ∈ links.map TopoEntry.dst, f = packetEvent u vtime ptr none length
        (tape (drawn + (links.map TopoEntry.dst).idxOf u)).val := by
  induction links generalizing drawn with
  | nil => simp [packetEvents]
  | cons t links ih =>
    rw [List.map_cons, List.nodup_cons] at hnodup
    obtain ⟨hnot, hnodup⟩ := hnodup
    rw [packetEvents_cons, List.mem_cons, ih hnodup, List.map_cons]
    have hindex : ∀ u ∈ links.map TopoEntry.dst,
        drawn + (t.dst :: links.map TopoEntry.dst).idxOf u =
          drawn + 1 + (links.map TopoEntry.dst).idxOf u := fun u hu => by
      have hne : t.dst ≠ u := by
        rintro rfl
        exact hnot hu
      rw [List.idxOf_cons_ne _ hne]
      omega
    constructor
    · rintro (rfl | ⟨u, hu, rfl⟩)
      · exact ⟨t.dst, List.mem_cons_self, by rw [List.idxOf_cons_self]; rfl⟩
      · exact ⟨u, List.mem_cons_of_mem _ hu, by rw [hindex u hu]⟩
    · rintro ⟨u, hu, rfl⟩
      rcases List.mem_cons.mp hu with rfl | hu
      · exact Or.inl (by rw [List.idxOf_cons_self]; rfl)
      · exact Or.inr ⟨u, hu, by rw [hindex u hu]⟩

end Quiet

/-! ## One turn -/

section Turn

variable {F : Type} {ops : FloatOps F}

/-- Dispatching hands the event to the node it points to. -/
theorem floodDispatch_cases {nodes nodes' : List Node} {e : QueueEvent} {w w' : World SimFront}
    (h : floodDispatch ops nodes e w = .ok (nodes', w')) :
    ∃ i node node', e.node = some i ∧ nodes[i]? = some node ∧
      floodHandle ops node e w = .ok (node', w') ∧ nodes' = nodes.set i node' :=
  handOver_cases h

/-- What a turn of the main loop did. -/
structure FloodTurn (ops : FloatOps F) (s : Sim) (l : FloodEvent) (s' : Sim) : Prop where
  /-- It took the event out of the queue, ran the route tests and handed the event to its node. -/
  ran : ∃ (queue : EventQueue) (tested world : World SimFront) (vtimeTick : VTime) (i : Nat)
      (node node' : Node),
    s.world.pending = l.event ::ₘ queue.pending ∧
    simTick s.nodes l.event.vtime s.vtimeTick (s.world.setQueue queue) = .ok (vtimeTick, tested) ∧
    l.event.node = some i ∧ s.nodes[i]? = some node ∧
    floodHandle ops node l.event tested = .ok (node', world) ∧
    s' = { world, nodes := s.nodes.set i node', vtimeTick }
  /-- The event was due first. -/
  first : ∀ f ∈ s.world.pending, l.event.vtime.toNat ≤ f.vtime.toNat
  /-- Whether a flood is passed on is told by the state before. -/
  rebroadcast_eq : l.rebroadcast = s.rebroadcasts l.event

theorem FloodStep.turn {s s' : Sim} {l : FloodEvent} (h : FloodStep ops s l s') :
    FloodTurn ops s l s' := by
  unfold FloodStep floodStep at h
  obtain ⟨⟨e, queue⟩, hpop, h⟩ := bind_eq_ok h
  dsimp only at h
  split at h
  · cases h
  · rename_i hinf
    obtain ⟨⟨vtimeTick, tested⟩, htick, h⟩ := bind_eq_ok h
    obtain ⟨⟨nodes, world⟩, hdispatch, h⟩ := bind_eq_ok h
    cases h
    obtain ⟨i, node, node', hi, hnode, hhandle, rfl⟩ := floodDispatch_cases hdispatch
    obtain ⟨hpending, hfirst⟩ := EventQueue.pop_ok hpop hinf
    exact ⟨⟨queue, tested, world, vtimeTick, i, node, node', hpending, htick, hi, hnode, hhandle,
      rfl⟩, hfirst, rfl⟩

end Turn

/-! ## The flood in the simulator -/

/-- A copy of the flood, with its node and its time. -/
def floodCopy (e : QueueEvent) : NodeId × Nat := (UInt16.ofNat (e.node.getD 0), e.vtime.toNat)

/-- The flood in a state of the simulator. -/
def Sim.flood (s : Sim) : Flood NodeId where
  silent id := (s.nodes[id.toNat]?.map fun node => node.floodTimeout.toNat).getD 0
  copies := s.world.floods.map floodCopy

/-- What an event is to the flood. -/
def FloodEvent.take (l : FloodEvent) : Option (FloodTake NodeId) :=
  if Carries 0 l.event then
    some ⟨(floodCopy l.event).1, (floodCopy l.event).2, l.rebroadcast⟩
  else none

section Refines

variable {args : SimArgs} {data : List UInt8} {topo : Topo} {s s' : Sim}

/-- The invariant of the simulator with a flood. -/
structure FloodSim (args : SimArgs) (data : List UInt8) (topo : Topo) (s : Sim) : Prop where
  /-- The network. -/
  topo_eq : topoRead args.links = .ok topo
  /-- The flood is the only one. -/
  world : FloodWorld data topo (simEschaton args.timeout) s.world
  /-- Nodes have their positions as identities. -/
  placed : Placed s.nodes

/-- Only the first packet is passed on as a flood. -/
theorem FloodSim.rebroadcasts_eq (htype : data.headD 0 = packetTypeFlood)
    (h : FloodSim args data topo s) {e : QueueEvent} {i : Nat} {node : Node}
    (hi : e.node = some i) (hnode : s.nodes[i]? = some node) :
    s.rebroadcasts e = decide (Carries 0 e ∧ node.floodTimeout < e.vtime) := by
  have hsome : e.node.bind (s.nodes[·]?) = some node := by rw [hi, Option.bind_some, hnode]
  rw [Sim.rebroadcasts, hsome]
  cases hptr : e.packet with
  | none => simp [Carries, hptr]
  | some ptr =>
    rcases Nat.eq_zero_or_pos ptr with rfl | hpos
    · obtain ⟨p, hp, hdata⟩ := h.world.flood
      simp only [Option.bind_some, hp, hdata, htype, Carries, hptr, decide_true, Bool.true_and,
        true_and]
    · have hother : ¬ Carries 0 e := fun he => hpos.ne' (Option.some.inj (hptr.symm.trans he))
      rw [decide_eq_false fun he => hother he.1, Option.bind_some]
      cases hp : s.world.heap[ptr]? with
      | none => rfl
      | some p =>
        dsimp only
        rw [decide_eq_false (h.world.others ptr p hpos.ne' hp), Bool.false_and]

theorem Sim.silent_flood {i : Nat} {node : Node} (hnode : s.nodes[i]? = some node)
    (hid : node.id.toNat = i) : s.flood.silent node.id = node.floodTimeout.toNat := by
  show (s.nodes[node.id.toNat]?.map fun node => node.floodTimeout.toNat).getD 0 = _
  rw [hid, hnode]
  rfl

/-- The flood after a turn that leaves a node in another state. -/
theorem Sim.flood_after {world : World SimFront} {i : Nat} {node node' : Node} {vtimeTick : VTime}
    (hnode : s.nodes[i]? = some node) (hid : node.id.toNat = i) :
    ({ world, nodes := s.nodes.set i node', vtimeTick } : Sim).flood =
      { silent := Function.update s.flood.silent node.id node'.floodTimeout.toNat
        copies := world.floods.map floodCopy } := by
  rw [Sim.flood, Flood.mk.injEq, and_iff_left rfl]
  funext id
  have hlt : i < s.nodes.length := (List.getElem?_eq_some_iff.mp hnode).1
  rcases eq_or_ne id node.id with rfl | hne
  · rw [Function.update_self, hid, List.getElem?_set_self hlt]
    rfl
  · have hnat : i ≠ id.toNat := fun heq => hne (UInt16.toNat_inj.mp (heq.symm.trans hid.symm))
    rw [Function.update_of_ne hne, List.getElem?_set_ne hnat]
    rfl

/-- A copy goes along each link, unless it is due at `Eschaton` or later. -/
theorem mem_floodCopies {w : World SimFront} (htopo : topoRead args.links = .ok w.front.topo)
    {length : Nat} {vtime : VTime} (hroom : FloodRoom length vtime) (id : NodeId)
    (c : NodeId × Nat) :
    c ∈ (↑(w.floodCopies id vtime length) : Multiset QueueEvent).map floodCopy ↔
      args.Hears id c.1 ∧ c.2 = vtime.toNat + w.floodDelay id length c.1 ∧
        c.2 < w.front.eschaton.toNat := by
  obtain ⟨hvalid, hlinks⟩ := topoRead_valid htopo
  obtain ⟨hnodup, hiter⟩ := hvalid.iter id
  have hcopy : ∀ u, floodCopy (packetEvent u vtime 0 none length
      (w.tape (w.drawn + ((topoIter w.front.topo id).map TopoEntry.dst).idxOf u)).val) =
        (u, vtime.toNat + w.floodDelay id length u) := fun u => by
    rw [floodCopy, packetEvent, VTime.toNat_after (hroom.delay _)]
    simp only [Option.getD_some, UInt16.ofNat_toNat]
    rfl
  rw [Multiset.map_coe, Multiset.mem_coe, List.mem_map]
  constructor
  · rintro ⟨f, hf, rfl⟩
    obtain ⟨hf, hlt⟩ := List.mem_filter.mp hf
    obtain ⟨u, hu, rfl⟩ := (mem_packetEvents hnodup).mp hf
    have hlt := of_decide_eq_true hlt
    rw [hcopy]
    refine ⟨(hlinks id u).mp ((hiter u).mp hu), rfl, ?_⟩
    have htime := congrArg Prod.snd (hcopy u)
    dsimp only [floodCopy] at htime
    rw [← htime]
    exact UInt64.lt_iff_toNat_lt.mp hlt
  · rintro ⟨hhears, htime, hlt⟩
    refine ⟨_, List.mem_filter.mpr ⟨(mem_packetEvents hnodup).mpr
      ⟨c.1, (hiter c.1).mpr ((hlinks id c.1).mpr hhears), rfl⟩, decide_eq_true ?_⟩, ?_⟩
    · rw [UInt64.lt_iff_toNat_lt]
      have htime' := congrArg Prod.snd (hcopy c.1)
      dsimp only [floodCopy] at htime'
      rw [htime', ← htime]
      exact hlt
    · rw [hcopy, ← htime]

/-- A node passes on the flood only when it is handed a copy. -/
theorem FloodStep.carries {F : Type} {ops : FloatOps F} (htype : data.headD 0 = packetTypeFlood)
    (h : FloodSim args data topo s) {l : FloodEvent} (hstep : FloodStep ops s l s')
    (hsends : l.rebroadcast = true) : Carries 0 l.event := by
  obtain ⟨⟨_, _, _, _, i, node, _, _, _, hi, hnode, -, -⟩, -, hrebroadcast⟩ := hstep.turn
  rw [hsends, h.rebroadcasts_eq htype hi hnode] at hrebroadcast
  exact (of_decide_eq_true hrebroadcast.symm).1

/-- A turn is a step of the flood if its event carries the flood, and else leaves it as it is. -/
theorem FloodStep.refines {F : Type} {ops : FloatOps F} (htype : data.headD 0 = packetTypeFlood)
    (h : FloodSim args data topo s) {l : FloodEvent} (hstep : FloodStep ops s l s')
    (hroom : FloodRoom data.length l.event.vtime) :
    FloodSim args data topo s' ∧ (l.take = none → s'.flood = s.flood) ∧
      ∀ t, l.take = some t → (floodNet args data.length).Step s.flood t s'.flood := by
  obtain ⟨⟨queue, tested, world, vtimeTick, i, node, node', hpending, htick, hi, hnode, hhandle,
    rfl⟩, hfirst, hrebroadcast⟩ := hstep.turn
  rw [h.rebroadcasts_eq htype hi hnode] at hrebroadcast
  obtain ⟨htested, hfloods⟩ := (h.world.setQueue queue).tick htype htick
  have hid := h.placed i node hnode
  have hsilent := Sim.silent_flood hnode hid
  by_cases hcarries : Carries 0 l.event
  · obtain ⟨hworld, hafter⟩ := (wp_floodHandle_flood htype htested hcarries).of_ok hhandle
    have hcopy : floodCopy l.event = (node.id, l.event.vtime.toNat) := by
      rw [floodCopy, hi, Option.getD_some, ← hid, UInt16.ofNat_toNat]
    have htaken : s.flood.copies =
        (node.id, l.event.vtime.toNat) ::ₘ tested.floods.map floodCopy := by
      rw [Sim.flood, hfloods, World.floods, World.floods, hpending,
        Multiset.filter_cons_of_pos _ hcarries, Multiset.map_cons, hcopy]
      rfl
    have hdue : ∀ c ∈ s.flood.copies, l.event.vtime.toNat ≤ c.2 := by
      rintro _ hc
      obtain ⟨f, hf, rfl⟩ := Multiset.mem_map.mp (show _ ∈ s.world.floods.map floodCopy from hc)
      exact hfirst f (Multiset.mem_of_mem_filter hf)
    have htake : l.take = some ⟨node.id, l.event.vtime.toNat, l.rebroadcast⟩ := by
      rw [FloodEvent.take, if_pos hcarries, hcopy]
    rw [htake, Sim.flood_after hnode hid]
    by_cases hsends : node.floodTimeout < l.event.vtime
    · rw [if_pos hsends] at hafter
      obtain ⟨rfl, hnews⟩ := hafter
      rw [decide_eq_true ⟨hcarries, hsends⟩] at hrebroadcast
      refine ⟨⟨h.topo_eq, hworld, h.placed.set hid⟩, nofun, fun t ht => ?_⟩
      cases ht
      rw [hnews, Multiset.map_add, hrebroadcast, VTime.toNat_after hroom.1]
      refine .send hdue htaken (hsilent.trans_lt (UInt64.lt_iff_toNat_lt.mp hsends))
        (tested.floodDelay node.id data.length) (fun u _ => ⟨_, (tested.tape _).isLt, rfl⟩)
        fun c => ?_
      rw [mem_floodCopies (htested.topo_eq ▸ h.topo_eq) hroom, htested.eschaton_eq]
      rfl
    · rw [if_neg hsends] at hafter
      obtain ⟨rfl, hnews⟩ := hafter
      rw [decide_eq_false fun hboth => hsends hboth.2] at hrebroadcast
      refine ⟨⟨h.topo_eq, hworld, h.placed.set hid⟩, nofun, fun t ht => ?_⟩
      cases ht
      rw [hnews, hrebroadcast, ← hsilent, Function.update_eq_self]
      refine .ignore hdue htaken ?_
      rw [hsilent]
      exact UInt64.le_iff_toNat_le.mp (VTime.le_of_not_lt hsends)
  · obtain ⟨⟨hid', htimeout⟩, hworld, hsame⟩ :=
      (wp_floodHandle_other htype htested hcarries).of_ok hhandle
    have hcopies : world.floods = s.world.floods := by
      rw [hsame, hfloods, World.floods, World.floods, hpending,
        Multiset.filter_cons_of_neg _ hcarries]
      rfl
    have htake : l.take = none := if_neg hcarries
    rw [htake]
    refine ⟨⟨h.topo_eq, hworld, h.placed.set ((congrArg UInt16.toNat hid').trans hid)⟩, fun _ => ?_,
      nofun⟩
    rw [Sim.flood_after hnode hid, htimeout, ← hsilent, Function.update_eq_self, hcopies]
    rfl

end Refines

end OldRadio.Second
