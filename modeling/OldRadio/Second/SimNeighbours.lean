import Mathlib.Combinatorics.SimpleGraph.Walk.Operations
import OldRadio.Library.Lists
import OldRadio.Second.SimEffects

/-!
# Neighbour tables tell the truth

The links that exist both ways form a graph. In every state of the simulator an
entry of a neighbour table stands for a walk of its length in that graph, or for
a link from the neighbour if it is not known to answer. The invariant covers the
tables and the beacons on their way: a beacon travels over a link from its
sender, and lists the sender and then neighbours the sender knew.
-/

namespace OldRadio.Second

open Library
open Node (M)

/-- The links that exist in both directions. -/
def bidirGraph (topo : Topo) : SimpleGraph NodeId where
  Adj a x := topo.Link a x ∧ topo.Link x a
  symm := ⟨fun _ _ h => h.symm⟩
  loopless := ⟨fun _ h => h.1.1 rfl⟩

/-- A walk of a number of links, each of which exists in both directions. -/
def BidirWalk (topo : Topo) (length : Nat) (a x : NodeId) : Prop :=
  ∃ walk : (bidirGraph topo).Walk a x, walk.length = length

theorem BidirWalk.of_adj {topo : Topo} {a x : NodeId} (h : (bidirGraph topo).Adj a x) :
    BidirWalk topo 1 a x := ⟨h.toWalk, rfl⟩

theorem BidirWalk.adj {topo : Topo} {a x : NodeId} (h : BidirWalk topo 1 a x) :
    (bidirGraph topo).Adj a x := by
  obtain ⟨walk, hlength⟩ := h
  exact SimpleGraph.Walk.adj_of_length_eq_one hlength

theorem BidirWalk.cons {topo : Topo} {k : Nat} {a x y : NodeId} (h : (bidirGraph topo).Adj a x)
    (hwalk : BidirWalk topo k x y) : BidirWalk topo (k + 1) a y := by
  obtain ⟨walk, hlength⟩ := hwalk
  exact ⟨.cons h walk, by rw [SimpleGraph.Walk.length_cons, hlength]⟩

/-- What an entry `n` of the table of node `a` stands for. -/
structure SoundNeigh (topo : Topo) (a : NodeId) (n : Neigh) : Prop where
  /-- No node is its own neighbour. -/
  ne : n.id ≠ a
  /-- The neighbour is an end of a link. -/
  le_maxId : n.id.toNat ≤ topo.maxId.toNat
  /-- The strata in use. -/
  stratum : n.stratum = 1 ∨ n.stratum = 2 ∨ n.stratum = 3 ∨ n.stratum = neighStratumInf
  /-- A finite stratum is the length of a walk. -/
  walk : n.stratum ≠ neighStratumInf → BidirWalk topo n.stratum.toNat a n.id
  /-- A neighbour that is not known to answer is heard. -/
  heard : n.stratum = neighStratumInf → topo.Link n.id a

/-- The table of node `a` tells the truth. -/
def SoundTable (topo : Topo) (a : NodeId) (table : NeighTable) : Prop :=
  ∀ entry ∈ table.entries, SoundNeigh topo a entry.neigh

/-- A beacon of node `src`: the node itself, and neighbours it told the truth about. -/
def SoundBeacon (topo : Topo) (src : NodeId) : List Neigh → Prop
  | [] => False
  | self :: listed => self.id = src ∧ self.stratum = 0 ∧
    ∀ n ∈ listed, beaconLists n = true ∧ SoundNeigh topo src n

/-! ## Recording a beacon -/

section Record

variable {topo : Topo} {src dst : NodeId} {vtime : VTime} {table table' : NeighTable}
  {neighs : List Neigh}

/-- A beacon that sees its receiver comes over a link that exists both ways. -/
theorem SoundBeacon.adj (h : SoundBeacon topo src neighs) (hlink : topo.Link src dst)
    (hsees : beaconSeesSelf dst neighs = true) : (bidirGraph topo).Adj dst src := by
  obtain ⟨n, hmem, hn⟩ := List.any_eq_true.mp hsees
  simp only [Bool.and_eq_true, beq_iff_eq, Bool.or_eq_true] at hn
  obtain ⟨hid, hstratum⟩ := hn
  cases neighs with
  | nil => exact h.elim
  | cons self listed =>
    obtain ⟨-, hself, hlisted⟩ := h
    rcases List.mem_cons.mp hmem with rfl | hmem
    · rw [hself] at hstratum
      exact absurd hstratum (by decide)
    · obtain ⟨-, hsound⟩ := hlisted n hmem
      rcases hstratum with hone | hinf
      · have hwalk := hsound.walk (by rw [hone]; decide)
        rw [hone, hid] at hwalk
        exact (BidirWalk.adj hwalk).symm
      · have := hsound.heard hinf
        rw [hid] at this
        exact ⟨this, hlink⟩

/-- An entry of a beacon from a bidirectional neighbour, one link further. -/
theorem SoundBeacon.further (h : SoundBeacon topo src neighs)
    (hadj : (bidirGraph topo).Adj dst src) {n : Neigh} (hmem : n ∈ neighs) (hid : n.id ≠ dst)
    (hinf : n.stratum ≠ neighStratumInf) :
    SoundNeigh topo dst { n with stratum := n.stratum + 1 } := by
  cases neighs with
  | nil => exact h.elim
  | cons self listed =>
    obtain ⟨hsrc, hself, hlisted⟩ := h
    rcases List.mem_cons.mp hmem with rfl | hmem
    · refine ⟨hid, ?_, Or.inl (by simp only [hself]; decide), fun _ => ?_, fun hx => ?_⟩
      · rw [hsrc]
        exact hadj.2.le_maxId.1
      · simp only [hself, hsrc]
        exact BidirWalk.of_adj hadj
      · simp only [hself] at hx
        exact absurd hx (by decide)
    · obtain ⟨hlists, hsound⟩ := hlisted n hmem
      have hwalk := hsound.walk hinf
      have htwo : n.stratum = 1 ∨ n.stratum = 2 := by
        rcases hsound.stratum with h1 | h2 | h3 | hi
        · exact Or.inl h1
        · exact Or.inr h2
        · rw [beaconLists, h3] at hlists
          exact absurd hlists (by decide)
        · exact absurd hi hinf
      refine ⟨hid, hsound.le_maxId, ?_, fun _ => ?_, fun hx => ?_⟩
      · rcases htwo with h1 | h2
        · exact Or.inr (Or.inl (by simp only [h1]; decide))
        · exact Or.inr (Or.inr (Or.inl (by simp only [h2]; decide)))
      · rcases htwo with h1 | h2
        · rw [h1] at hwalk
          simp only [h1]
          exact hwalk.cons hadj
        · rw [h2] at hwalk
          simp only [h2]
          exact hwalk.cons hadj
      · rcases htwo with h1 | h2
        · simp only [h1] at hx
          exact absurd hx (by decide)
        · simp only [h2] at hx
          exact absurd hx (by decide)

/-- What is inserted of a beacon that came over a link is true. -/
theorem SoundBeacon.insert (h : SoundBeacon topo src neighs) (hlink : topo.Link src dst)
    {i : BeaconInsert} (hi : i ∈ beaconInserts dst neighs) : SoundNeigh topo dst i.neigh := by
  rcases mem_beaconInserts hi with ⟨hsees, n, hn, hid, hinf, rfl⟩ | ⟨first, listed, rfl, rfl⟩
  · exact h.further (h.adj hlink hsees) hn hid hinf
  · obtain ⟨hsrc, -, -⟩ := h
    refine ⟨?_, ?_, Or.inr (Or.inr (Or.inr rfl)), fun hx => absurd rfl hx, fun _ => ?_⟩
    · rw [beaconMarked, hsrc]
      exact hlink.1
    · rw [beaconMarked, hsrc]
      exact hlink.le_maxId.1
    · rwa [beaconMarked, hsrc]

/-- Recording a beacon that came over a link keeps the table truthful. -/
theorem SoundTable.record (h : SoundTable topo dst table) (hbeacon : SoundBeacon topo src neighs)
    (hlink : topo.Link src dst) (hrun : recordBeacon dst vtime table neighs = .ok table') :
    SoundTable topo dst table' := by
  have hne : neighs ≠ [] := by
    rintro rfl
    exact hbeacon
  exact forall_of_recordBeacon hne (fun _ => hbeacon.insert hlink) h hrun

end Record

/-! ## Sending a beacon -/

/-- A beacon is parsed into the entries it was made of. -/
theorem beaconParse_beaconData (node : Node) :
    beaconParse (beaconData node) = .ok (beaconEntries node) := by
  obtain ⟨hpos, hle⟩ := length_beaconEntries node
  have hcount : beaconCount (beaconData node).length = .ok (beaconEntries node).length := by
    rw [length_beaconData]
    generalize (beaconEntries node).length = k at hpos hle
    interval_cases k <;> decide
  rw [beaconParse, hcount, ok_bind]
  change Except.ok (neighLayout.decodeList _ (neighLayout.encodeList _)) = _
  rw [← List.append_nil (neighLayout.encodeList _), Packed.decodeList_encodeList]

/-- The beacon of a node with a truthful table is truthful. -/
theorem soundBeacon_beaconEntries {topo : Topo} {node : Node}
    (h : SoundTable topo node.id node.neighTable) :
    SoundBeacon topo node.id (beaconEntries node) := by
  refine ⟨rfl, rfl, fun n hn => ?_⟩
  obtain ⟨hmem, hlists⟩ := List.mem_filter.mp (List.mem_of_mem_take hn)
  obtain ⟨entry, hentry, rfl⟩ := exists_entry_of_mem_neighIter hmem
  exact ⟨hlists, h entry hentry⟩

/-! ## Packets on their way -/

/-- Every packet on its way, in the queue or in an event `held`, travels over a link from a node
that `said` it. -/
structure InFlight (topo : Topo) (said : NodeId → List UInt8 → Prop) (held : Multiset QueueEvent)
    (w : World SimFront) : Prop where
  /-- The topology does not change. -/
  topo_eq : w.front.topo = topo
  /-- Where a packet event comes from. -/
  sent : ∀ e ∈ held + w.pending, ∀ ptr, e.packet = some ptr → ∃ p src dst, w.heap[ptr]? = some p ∧
    said src p.data ∧ topo.Link src dst ∧ e.node = some dst.toNat

section InFlight

variable {F : Type} {ops : FloatOps F} {topo : Topo} {said said' : NodeId → List UInt8 → Prop}
  {held : Multiset QueueEvent} {id : NodeId} {vtime : VTime} {w : World SimFront}

theorem InFlight.mono (h : InFlight topo said held w)
    (hsaid : ∀ src data, said src data → said' src data) : InFlight topo said' held w := by
  refine ⟨h.topo_eq, fun e he ptr hptr => ?_⟩
  obtain ⟨p, src, dst, hp, hdata, hrest⟩ := h.sent e he ptr hptr
  exact ⟨p, src, dst, hp, hsaid src p.data hdata, hrest⟩

theorem InFlight.of_heap {w' : World SimFront} (h : InFlight topo said held w)
    (hfront : w'.front = w.front)
    (hheap : ∀ (ptr : Nat) (p : Packet), w.heap[ptr]? = some p →
      ∃ p' : Packet, w'.heap[ptr]? = some p' ∧ p'.data = p.data) :
    InFlight topo said held w' := by
  refine ⟨by rw [hfront, h.topo_eq], fun e he ptr hptr => ?_⟩
  rw [World.pending, hfront] at he
  obtain ⟨p, src, dst, hp, hsaid, hrest⟩ := h.sent e he ptr hptr
  obtain ⟨p', hp', hdata⟩ := hheap ptr p hp
  exact ⟨p', src, dst, hp', hdata ▸ hsaid, hrest⟩

/-- Packets that a node says are on their way from it when they are delivered. -/
theorem inFlight_delivers : Delivers id vtime (said id) (InFlight topo said held) where
  skip _ h := h.of_heap rfl fun _ p hp => ⟨p, hp, rfl⟩
  push _ _ _ h := h.of_heap rfl fun _ p hp => ⟨p, heap_push hp _, rfl⟩
  poke _ _ _ _ hp h := h.of_heap rfl fun _ _ => exists_heap_poke hp
  deliver w ptr p t r queue hp hgood ht hqueue h := by
    refine ⟨h.topo_eq, fun e he ptr' hptr' => ?_⟩
    rw [World.setQueue_pending, hqueue, Multiset.add_cons] at he
    rcases Multiset.mem_cons.mp he with rfl | he
    · cases hptr'
      exact ⟨p, id, t.dst, hp, hgood, h.topo_eq ▸ link_of_mem_topoIter ht, rfl⟩
    · exact h.sent e he ptr' hptr'

/-- Timers carry no packets. -/
theorem inFlight_keptTimer :
    KeptTimer simCallback id vtime (said id) (fun _ => True) (InFlight topo said held) where
  toKept := inFlight_delivers.kept
  timer w delay extra _ h := by
    refine wp_simCallback_timer trivial (fun _ => h.of_heap rfl fun _ p hp => ⟨p, hp, rfl⟩) ?_
    intro _ queue hqueue
    refine ⟨h.topo_eq, fun e he ptr hptr => ?_⟩
    rw [World.setQueue_pending, hqueue, Multiset.add_cons] at he
    rcases Multiset.mem_cons.mp he with rfl | he
    · cases hptr
    · exact h.sent e he ptr hptr

/-- Handing an event to its node leaves packets on their way that nodes said, if what the node says
is. No packet may be a flood, which is passed on as it is. -/
theorem wp_simHandle_inFlight {node : Node} {e : QueueEvent} (h : InFlight topo said held w)
    (he : e ∈ held) (hflood : ∀ src data, said src data → data.headD 0 ≠ packetTypeFlood)
    (hdata : ∀ data : PacketData, data.packetType = packetTypeData →
      said node.id (packetDataLayout.encode data))
    (hbeacon : e.packet = none → ∀ node', Timed node e.vtime node' →
      said node.id (beaconData node')) :
    Wp (simHandle ops node e) (fun _ => InFlight topo said held) (fun _ => True) w := by
  have hkept : KeptTimer simCallback node.id e.vtime (said node.id) (fun _ => True)
      (InFlight topo said held) := inFlight_keptTimer
  unfold simHandle
  cases hptr : e.packet with
  | some ptr =>
    obtain ⟨p, src, dst, hp, hsaid, -⟩ := h.sent e (Multiset.mem_add.mpr (Or.inl he)) ptr hptr
    dsimp only
    rw [wp_bind]
    refine (hkept.wp_nodeReceive hdata hp (fun _ _ _ => trivial) (fun _ _ => trivial)
      (fun htype => absurd htype (hflood src p.data hsaid)) h).imp fun node' w' hw' => ?_
    rw [wp_bind]
    exact hkept.toKept.keeps_packetFree ptr w' hw'
  | none => exact hkept.keptNewTimer.keeps_nodeTimer (hbeacon hptr) e.extra w h

/-- Taking an event out of the queue leaves its packet on its way. -/
theorem InFlight.hold {e : QueueEvent} {queue : EventQueue} (h : InFlight topo said 0 w)
    (hpending : w.pending = e ::ₘ queue.pending) :
    InFlight topo said {e} (w.setQueue queue) := by
  refine ⟨h.topo_eq, fun f hf ptr hptr => ?_⟩
  rw [World.setQueue_pending, Multiset.singleton_add, ← hpending] at hf
  exact h.sent f (by rwa [Multiset.zero_add]) ptr hptr

/-- An event that is handled is on its way no more. -/
theorem InFlight.drop (h : InFlight topo said held w) : InFlight topo said 0 w := by
  refine ⟨h.topo_eq, fun f hf => h.sent f ?_⟩
  rw [Multiset.zero_add] at hf
  exact Multiset.mem_add.mpr (Or.inr hf)

/-- Route tests say data packets. -/
theorem InFlight.tick {nodes : List Node} {vtime vtimeTick vtimeTick' : VTime}
    {w' : World SimFront} (h : InFlight topo said held w)
    (hdata : ∀ id, ∀ data : PacketData, data.packetType = packetTypeData →
      said id (packetDataLayout.encode data))
    (htick : simTick nodes vtime vtimeTick w = .ok (vtimeTick', w')) :
    InFlight topo said held w' := by
  have hkeeps : Keeps (InFlight topo said held) (fun _ => True) (simTick nodes vtime vtimeTick) :=
    keeps_simTick trivial fun node _ => KeptNew.keeps_nodeRouteTest (hdata node.id)
      (inFlight_delivers.keptNew trivial trivial)
  exact (hkeeps w h).of_ok htick

/-- Nothing is on its way before any node is initialised. -/
theorem inFlight_blank (topo : Topo) (dims : Nat) (eschaton : VTime)
    (tape : Nat → Fin randRange) (uninit : Nat → List UInt8) :
    InFlight topo said 0 (simBlank topo dims eschaton tape uninit) where
  topo_eq := rfl
  sent e he := by
    rw [Multiset.zero_add] at he
    exact absurd he (Multiset.notMem_zero e)

end InFlight

/-! ## The invariant of the simulator -/

/-- What a packet that node `src` sent holds: data, or a truthful beacon. -/
def SentBy (topo : Topo) (src : NodeId) (data : List UInt8) : Prop :=
  data ≠ [] ∧ (data.headD 0 = packetTypeData ∨ data.headD 0 = packetTypeBeacon ∧
    ∃ neighs, beaconParse data = .ok neighs ∧ SoundBeacon topo src neighs)

/-- Every packet on its way, in the queue or in an event `held`, travels over a link from the node
that sent it. -/
def SoundWorld (topo : Topo) (held : Multiset QueueEvent) (w : World SimFront) : Prop :=
  InFlight topo (SentBy topo) held w

/-- Nodes are where their identities say, and their tables tell the truth. -/
structure SoundNodes (topo : Topo) (nodes : List Node) : Prop where
  /-- There is a node for every end of a link. -/
  length_eq : nodes.length = topo.maxId.toNat + 1
  /-- Each node. -/
  sound : ∀ i (node : Node), nodes[i]? = some node →
    node.id.toNat = i ∧ SoundTable topo node.id node.neighTable

theorem sentBy_data {topo : Topo} {src : NodeId} {data : PacketData}
    (h : data.packetType = packetTypeData) : SentBy topo src (packetDataLayout.encode data) :=
  ⟨packetDataLayout_encode_ne_nil data, Or.inl ((headD_encode data).trans h)⟩

theorem sentBy_beacon {topo : Topo} {node : Node} (h : SoundTable topo node.id node.neighTable) :
    SentBy topo node.id (beaconData node) :=
  ⟨beaconData_ne_nil node, Or.inr ⟨rfl, _, beaconParse_beaconData node,
    soundBeacon_beaconEntries h⟩⟩

/-- The invariant of the simulator. -/
def SoundSim (topo : Topo) (s : Sim) : Prop :=
  SoundWorld topo 0 s.world ∧ SoundNodes topo s.nodes

theorem SoundNodes.set {topo : Topo} {nodes : List Node} (h : SoundNodes topo nodes) {i : Nat}
    {node : Node} (hid : node.id.toNat = i) (htable : SoundTable topo node.id node.neighTable) :
    SoundNodes topo (nodes.set i node) :=
  ⟨by rw [List.length_set, h.length_eq], forall_set h.sound ⟨hid, htable⟩⟩

section Step

variable {F : Type} {ops : FloatOps F} {topo : Topo} {held : Multiset QueueEvent}
  {w : World SimFront}

/-- A node that receives a packet over a link keeps its table truthful. -/
theorem Received.soundTable {node node' : Node} {vtime : VTime} {packet : Packet} {src : NodeId}
    (h : Received node vtime packet node') (hsent : SentBy topo src packet.data)
    (hlink : topo.Link src node.id) (htable : SoundTable topo node.id node.neighTable) :
    SoundTable topo node'.id node'.neighTable := by
  rw [h.id_eq]
  rcases h.table with hsame | ⟨neighs, htype, hparse, hrecord⟩
  · rwa [hsame]
  · obtain ⟨-, hdata | ⟨-, neighs', hparse', hbeacon⟩⟩ := hsent
    · rw [htype] at hdata
      exact absurd hdata (by decide)
    · cases hparse.symm.trans hparse'
      exact htable.record hbeacon hlink hrecord

theorem SentBy.not_flood {src : NodeId} {data : List UInt8} (h : SentBy topo src data) :
    data.headD 0 ≠ packetTypeFlood := by
  rcases h.2 with hd | ⟨hb, -⟩
  · rw [hd]
    decide
  · rw [hb]
    decide

/-- Handing an event to its node keeps the invariant. -/
theorem wp_simHandle_sound {node : Node} {e : QueueEvent} (h : SoundWorld topo held w)
    (he : e ∈ held) (hnode : e.node = some node.id.toNat)
    (htable : SoundTable topo node.id node.neighTable) :
    Wp (simHandle ops node e) (fun node' w' => SoundWorld topo held w' ∧ node'.id = node.id ∧
      SoundTable topo node'.id node'.neighTable) (fun _ => True) w := by
  have hworld : Wp (simHandle ops node e) (fun _ => SoundWorld topo held) (fun _ => True) w := by
    refine wp_simHandle_inFlight h he (fun _ _ => SentBy.not_flood) (fun _ => sentBy_data) ?_
    intro _ node' htimed
    exact htimed.id_eq ▸ sentBy_beacon (by rw [htimed.id_eq, htimed.table_eq]; exact htable)
  refine (hworld.and wp_simHandle_node).mono (fun node' w' hw' => ?_) fun _ _ => trivial
  refine ⟨hw'.1, hw'.2.id_eq, ?_⟩
  cases hw'.2 with
  | received hptr hp hreceived =>
    obtain ⟨p, src, dst, hp', hsent, hlink, hdst⟩ :=
      h.sent e (Multiset.mem_add.mpr (Or.inl he)) _ hptr
    cases hp'.symm.trans hp
    obtain rfl : dst = node.id := by
      rw [hnode, Option.some.injEq] at hdst
      exact (UInt16.toNat_inj.mp hdst).symm
    exact hreceived.soundTable hsent hlink htable
  | timed _ htimed =>
    rw [htimed.id_eq, htimed.table_eq]
    exact htable

/-- Taking an event out of the queue keeps the invariant. -/
theorem SoundWorld.hold {e : QueueEvent} {queue : EventQueue} (h : SoundWorld topo 0 w)
    (hpending : w.pending = e ::ₘ queue.pending) : SoundWorld topo {e} (w.setQueue queue) :=
  InFlight.hold h hpending

/-- Route tests keep the invariant. -/
theorem SoundWorld.tick {nodes : List Node} {vtime vtimeTick vtimeTick' : VTime}
    {w' : World SimFront} (h : SoundWorld topo held w)
    (htick : simTick nodes vtime vtimeTick w = .ok (vtimeTick', w')) : SoundWorld topo held w' :=
  InFlight.tick h (fun _ _ => sentBy_data) htick

/-- A turn of the main loop keeps the invariant. -/
theorem SoundSim.step {s s' : Sim} {e : QueueEvent} (h : SoundSim topo s)
    (hstep : SimStep ops s e s') : SoundSim topo s' := by
  obtain ⟨hworld, hnodes⟩ := h
  obtain ⟨queue, tested, world, nodes, vtimeTick, hpending, htick, hdispatch, rfl⟩ :=
    hstep.turn.ran
  have htested : SoundWorld topo {e} tested := (hworld.hold hpending).tick htick
  obtain ⟨i, node, node', hi, hnode, hhandle, rfl⟩ := simDispatch_cases hdispatch
  obtain ⟨hid, htable⟩ := hnodes.sound i node hnode
  obtain ⟨hafter, hid', htable'⟩ := (wp_simHandle_sound htested (Multiset.mem_singleton_self e)
    (by rw [hi, hid]) htable).of_ok hhandle
  exact ⟨InFlight.drop hafter, hnodes.set (by rw [hid', hid]) htable'⟩

end Step

/-! ## The start and every run -/

/-- The nodes that the start makes. -/
theorem SoundNodes.of_initial {topo : Topo} {nodes : List Node}
    (h : List.Forall₂ (fun i node => Initial (UInt16.ofNat i) node)
      (List.range (topo.maxId.toNat + 1)) nodes) : SoundNodes topo nodes := by
  have hlength := h.length_eq
  rw [List.length_range] at hlength
  refine ⟨hlength.symm, fun i node hnode => ?_⟩
  obtain ⟨hid, htable⟩ := Initial.placed (Nat.succ_le_of_lt topo.maxId.toNat_lt) h hnode
  refine ⟨hid, fun entry hentry => ?_⟩
  rw [htable] at hentry
  exact absurd hentry List.not_mem_nil

theorem soundSim_start {args : SimArgs} {tape : Nat → Fin randRange} {uninit : Nat → List UInt8}
    {s : Sim} (h : simStart args tape uninit = .ok s) :
    ∃ topo, topoRead args.links = .ok topo ∧ SoundSim topo s := by
  obtain ⟨topo, dims, nodes, world, htopo, -, hnodes, rfl⟩ := simStart_cases h
  have hrun : Wp (simNodes args.nodeOpts (topo.maxId.toNat + 1))
      (fun nodes w => List.Forall₂ (fun i node => Initial (UInt16.ofNat i) node)
        (List.range (topo.maxId.toNat + 1)) nodes ∧ InFlight topo (SentBy topo) 0 w)
      (fun _ => True) _ :=
    wp_mapM (fun _ => InFlight topo (SentBy topo) 0) _ (fun i _ w hw =>
      (wp_nodeInit_node.and
        (inFlight_keptTimer.keptNewTimer.keeps_nodeInit args.nodeOpts w hw)).mono
        (fun _ _ h => h) fun _ _ => trivial)
      (inFlight_blank topo dims (simEschaton args.timeout) tape uninit)
  obtain ⟨hinitial, hworld⟩ := hrun.of_ok hnodes
  exact ⟨topo, htopo, hworld, .of_initial hinitial⟩

/-- The invariant holds in every state of every run. -/
theorem soundSim_reachable {F : Type} {ops : FloatOps F} {args : SimArgs}
    {tape : Nat → Fin randRange} {uninit : Nat → List UInt8} {s : Sim}
    (h : SimReachable ops args tape uninit s) :
    ∃ topo, topoRead args.links = .ok topo ∧ SoundSim topo s := by
  obtain ⟨s₀, events, hstart, hrun⟩ := h
  obtain ⟨topo, htopo, hsound⟩ := soundSim_start hstart
  exact ⟨topo, htopo, hrun.keeps (fun _ _ _ hs hstep => hs.step hstep) hsound⟩

/-! ## Routes -/

theorem mem_of_routeLoop {destId : NodeId} {destLoc : Loc} {maxstrat : Int} {neighs : List Neigh}
    {minDist2 : UInt64} {minNeigh : Option Neigh} {n : Neigh}
    (h : routeLoop destId destLoc maxstrat neighs minDist2 minNeigh = some n) :
    n ∈ neighs ∨ minNeigh = some n := by
  induction neighs generalizing minDist2 minNeigh with
  | nil => exact Or.inr h
  | cons m rest ih =>
    have hrest : ∀ {minDist2 minNeigh},
        routeLoop destId destLoc maxstrat rest minDist2 minNeigh = some n →
        n ∈ m :: rest ∨ minNeigh = some n := fun hloop =>
      (ih hloop).imp_left (List.mem_cons_of_mem m)
    rw [routeLoop] at h
    split at h
    · split at h
      · cases h
        exact Or.inl List.mem_cons_self
      · dsimp only at h
        split at h
        · rcases hrest h with hmem | hmin
          · exact Or.inl hmem
          · cases hmin
            exact Or.inl List.mem_cons_self
        · exact hrest h
    · exact hrest h

/-- A hop that is chosen is a live neighbour at stratum 1. -/
theorem exists_of_routeMfrFrom {fuel : Nat} {node : Node} {destId : NodeId} {destLoc : Loc}
    {maxstrat : Int} (h : routeMfrFrom fuel node destId destLoc maxstrat ≠ nodeIdInvalid) :
    ∃ n ∈ neighIter node.neighTable, n.stratum = 1 ∧
      n.id = routeMfrFrom fuel node destId destLoc maxstrat := by
  induction fuel generalizing destId destLoc maxstrat with
  | zero => exact absurd rfl h
  | succ fuel ih =>
    rw [routeMfrFrom] at h ⊢
    split at h
    · rename_i n hloop
      split at h
      · rename_i hone
        have hmem := (mem_of_routeLoop hloop).resolve_right fun hnone => by cases hnone
        exact ⟨n, hmem, hone, by rw [if_pos hone]⟩
      · rename_i hone
        rw [if_neg hone]
        exact ih h
    · exact absurd rfl h

/-- A hop that is chosen is a bidirectional neighbour. -/
theorem SoundTable.adj_route {topo : Topo} {node : Node}
    (h : SoundTable topo node.id node.neighTable) {destId : NodeId} {destLoc : Loc}
    {maxstrat : Int} (hhop : nodeRouteMfr node destId destLoc maxstrat ≠ nodeIdInvalid) :
    (bidirGraph topo).Adj node.id (nodeRouteMfr node destId destLoc maxstrat) := by
  obtain ⟨n, hmem, hone, hid⟩ := exists_of_routeMfrFrom hhop
  obtain ⟨entry, hentry, rfl⟩ := exists_entry_of_mem_neighIter hmem
  have hwalk := (h entry hentry).walk (by rw [hone]; decide)
  rw [hone, hid] at hwalk
  exact BidirWalk.adj hwalk

/-- The loop of `sim_route_test_one` counts the links of a walk. -/
theorem walk_of_routeTestLoop {topo : Topo} {nodes : List Node} (h : SoundNodes topo nodes)
    {node2 hop : NodeId} {loc : Loc} {maxstrat : Int} (hvalid : node2 ≠ nodeIdInvalid)
    {turns i r : Nat} (hi : 0 < i)
    (hrun : routeTestLoop nodes node2 loc maxstrat turns i hop = .ok r) (hr : 0 < r) :
    i ≤ r ∧ BidirWalk topo (r - i + 1) hop node2 := by
  induction turns generalizing i hop with
  | zero =>
    cases hrun
    exact absurd hr (Nat.lt_irrefl 0)
  | succ turns ih =>
    rw [routeTestLoop] at hrun
    obtain ⟨node, hnode, hrun⟩ := bind_eq_ok hrun
    cases hget : nodes[hop.toNat]? with
    | none =>
      rw [hget] at hnode
      cases hnode
    | some node' =>
      rw [hget] at hnode
      cases hnode
      obtain ⟨hid, htable⟩ := h.sound _ node hget
      have hhop : node.id = hop := UInt16.toNat_inj.mp hid
      dsimp only at hrun
      split at hrun
      · rename_i hdest
        cases hrun
        have hadj := htable.adj_route (by rw [hdest]; exact hvalid)
        rw [hdest, hhop] at hadj
        exact ⟨le_rfl, by rw [Nat.sub_self]; exact BidirWalk.of_adj hadj⟩
      · split at hrun
        · cases hrun
          exact absurd hr (Nat.lt_irrefl 0)
        · rename_i hnot
          have hadj := htable.adj_route hnot
          rw [hhop] at hadj
          obtain ⟨hle, hwalk⟩ := ih (Nat.succ_pos i) hrun
          refine ⟨by omega, ?_⟩
          rw [show r - i + 1 = r - (i + 1) + 1 + 1 by omega]
          exact hwalk.cons hadj

/-- The tables, hops and test routes of the nodes describe the links that exist. -/
structure Truthful (topo : Topo) (nodes : List Node) : Prop where
  /-- A live entry names another node, at the end of a walk of its stratum or of a link to here. -/
  entry : ∀ node ∈ nodes, ∀ n ∈ neighIter node.neighTable,
    n.id ≠ node.id ∧ (∃ x ∈ nodes, x.id = n.id) ∧
    (n.stratum = 1 ∨ n.stratum = 2 ∨ n.stratum = 3 ∨ n.stratum = neighStratumInf) ∧
    (n.stratum ≠ neighStratumInf → BidirWalk topo n.stratum.toNat node.id n.id) ∧
    (n.stratum = neighStratumInf → topo.Link n.id node.id)
  /-- A hop of `node_route_mfr` is a bidirectional neighbour. -/
  hop : ∀ node ∈ nodes, ∀ destId destLoc maxstrat,
    nodeRouteMfr node destId destLoc maxstrat ≠ nodeIdInvalid →
    (bidirGraph topo).Adj node.id (nodeRouteMfr node destId destLoc maxstrat)
  /-- A route of `sim_route_test_one` is a walk of as many links. -/
  route : ∀ node ∈ nodes, ∀ x ∈ nodes, ∀ maxstrat i,
    simRouteTestOne nodes node.id x.id maxstrat = .ok i → 0 < i → BidirWalk topo i node.id x.id

theorem SoundNodes.truthful {topo : Topo} {nodes : List Node} (h : SoundNodes topo nodes)
    (hmax : topo.maxId ≠ nodeIdInvalid) : Truthful topo nodes where
  entry node hnode n hn := by
    obtain ⟨i, hi⟩ := List.getElem?_of_mem hnode
    obtain ⟨entry, hentry, rfl⟩ := exists_entry_of_mem_neighIter hn
    have hsound := (h.sound i node hi).2 entry hentry
    refine ⟨hsound.ne, ?_, hsound.stratum, hsound.walk, hsound.heard⟩
    have hlt : entry.neigh.id.toNat < nodes.length := by
      rw [h.length_eq]
      exact Nat.lt_succ_of_le hsound.le_maxId
    have hget := List.getElem?_eq_getElem hlt
    exact ⟨_, List.getElem_mem hlt, UInt16.toNat_inj.mp (h.sound _ _ hget).1⟩
  hop node hnode _ _ _ hhop := by
    obtain ⟨i, hi⟩ := List.getElem?_of_mem hnode
    exact (h.sound i node hi).2.adj_route hhop
  route node hnode x hx maxstrat r hrun hr := by
    obtain ⟨j, hj⟩ := List.getElem?_of_mem hx
    obtain ⟨hxid, -⟩ := h.sound j x hj
    have hvalid : x.id ≠ nodeIdInvalid := by
      intro hinvalid
      have hlt := (List.getElem?_eq_some_iff.mp hj).1
      rw [h.length_eq] at hlt
      rw [hinvalid] at hxid
      have h16 : nodeIdInvalid.toNat = 65535 := rfl
      have hbound := topo.maxId.toNat_lt
      exact hmax (UInt16.toNat_inj.mp (by omega))
    unfold simRouteTestOne at hrun
    obtain ⟨dest, -, hrun⟩ := bind_eq_ok hrun
    obtain ⟨hle, hwalk⟩ := walk_of_routeTestLoop h hvalid Nat.one_pos hrun hr
    rwa [Nat.sub_add_cancel hle] at hwalk

/-- In every state of every run the nodes tell the truth about the links that exist. -/
theorem neighbourTables_sound {F : Type} (ops : FloatOps F) {args : SimArgs}
    {tape : Nat → Fin randRange} {uninit : Nat → List UInt8} {s : Sim}
    (hids : ∀ l ∈ args.links, l.src ≠ nodeIdInvalid ∧ l.dst ≠ nodeIdInvalid)
    (h : SimReachable ops args tape uninit s) :
    ∃ topo, topoRead args.links = .ok topo ∧ Truthful topo s.nodes := by
  obtain ⟨topo, htopo, -, hnodes⟩ := soundSim_reachable h
  exact ⟨topo, htopo, hnodes.truthful
    (topoRead_maxId htopo (· ≠ nodeIdInvalid) (by decide) hids)⟩

theorem neighbourTables_sound_twoNodes :
    ∃ s, SimReachable integerOps twoNodes (fun _ => 0) (fun _ => []) s ∧
      (s.nodes.map fun node => (neighIter node.neighTable).map fun n => (n.id, n.stratum)) =
        [[(1, neighStratumInf)], [(0, neighStratumInf)]] ∧
      ∃ topo, topoRead twoNodes.links = .ok topo ∧ Truthful topo s.nodes := by
  have hrun : (do
      let s ← simStart twoNodes (fun _ => 0) fun _ => []
      let r ← simRun integerOps (fun _ _ => true) 4 s
      return r.2.nodes.map fun node => (neighIter node.neighTable).map fun n => (n.id, n.stratum)) =
        (Except.ok [[(1, neighStratumInf)], [(0, neighStratumInf)]] : Except Abort _) := by
    decide +kernel
  obtain ⟨s₀, hstart, hrun⟩ := bind_eq_ok hrun
  obtain ⟨⟨events, s⟩, hevents, hrun⟩ := bind_eq_ok hrun
  have hreach : SimReachable integerOps twoNodes (fun _ => 0) (fun _ => []) s :=
    .of_simRun integerOps hstart hevents
  exact ⟨s, hreach, Except.ok.inj hrun, neighbourTables_sound integerOps (by decide) hreach⟩

end OldRadio.Second
