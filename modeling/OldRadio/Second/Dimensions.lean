import OldRadio.Second.SimNeighbours

/-!
# Simulations of fewer dimensions

After `loc_set_dims` every location stays flat: those of the nodes, those in
their tables, and those in the beacons on their way. A random move clears the
coordinates that are not in use, and the step towards a better location scales
differences that are zero.
-/

namespace OldRadio.Second

open Library
open Node (M)

/-- The locations in a table are flat. -/
def NeighTable.FlatBeyond (k : Nat) (table : NeighTable) : Prop :=
  ∀ entry ∈ table.entries, entry.neigh.loc.FlatBeyond k

/-- The locations that a node keeps are flat. -/
structure Node.FlatBeyond (k : Nat) (node : Node) : Prop where
  /-- Its own. -/
  virtloc : node.virtloc.FlatBeyond k
  /-- Those of its neighbours. -/
  table : node.neighTable.FlatBeyond k

/-- A beacon of flat locations. -/
def FlatBeacon (k : Nat) (data : List UInt8) : Prop :=
  ∃ neighs, beaconParse data = .ok neighs ∧ ∀ n ∈ neighs, n.loc.FlatBeyond k

/-! ## Beacons and tables -/

section Beacons

variable {k : Nat} {id : NodeId} {vtime : VTime} {table table' : NeighTable} {neighs : List Neigh}

/-- Recording a beacon of flat locations keeps the table flat: insertions copy locations. -/
theorem NeighTable.FlatBeyond.record (h : table.FlatBeyond k)
    (hneighs : ∀ n ∈ neighs, n.loc.FlatBeyond k) (hne : neighs ≠ [])
    (hrecord : recordBeacon id vtime table neighs = .ok table') : table'.FlatBeyond k := by
  refine forall_of_recordBeacon (P := fun n => n.loc.FlatBeyond k) hne (fun i hi => ?_) h hrecord
  rcases mem_beaconInserts hi with ⟨-, n, hn, -, -, rfl⟩ | ⟨first, listed, rfl, rfl⟩
  · exact hneighs n hn
  · exact hneighs first List.mem_cons_self

/-- A node that keeps flat locations tells flat locations. -/
theorem Node.FlatBeyond.flatBeacon {node : Node} (h : node.FlatBeyond k) :
    FlatBeacon k (beaconData node) := by
  refine ⟨_, beaconParse_beaconData node, fun n hn => ?_⟩
  rcases List.mem_cons.mp hn with rfl | hlisted
  · exact h.virtloc
  · obtain ⟨hmem, -⟩ := List.mem_filter.mp (List.mem_of_mem_take hlisted)
    obtain ⟨entry, hentry, rfl⟩ := exists_entry_of_mem_neighIter hmem
    exact h.table entry hentry

end Beacons

/-! ## Packets on their way -/

/-- What nodes send: no floods, and beacons of flat locations. -/
def FlatPacket (k : Nat) (data : List UInt8) : Prop :=
  data.headD 0 ≠ packetTypeFlood ∧ (data.headD 0 = packetTypeBeacon → FlatBeacon k data)

theorem flatPacket_data (k : Nat) {data : PacketData} (h : data.packetType = packetTypeData) :
    FlatPacket k (packetDataLayout.encode data) := by
  rw [FlatPacket, headD_encode, h]
  exact ⟨by decide, fun hbeacon => absurd hbeacon (by decide)⟩

theorem flatPacket_beacon {k : Nat} {node : Node} (h : node.FlatBeyond k) :
    FlatPacket k (beaconData node) :=
  ⟨show packetTypeBeacon ≠ packetTypeFlood by decide, fun _ => h.flatBeacon⟩

/-- `Loc_dims` does not change, and packets on their way are those that nodes send. -/
def FlatWorld (k : Nat) (topo : Topo) (held : Multiset QueueEvent) (w : World SimFront) : Prop :=
  w.dims = k ∧ InFlight topo (fun _ => FlatPacket k) held w

section World

variable {F Front : Type} {ops : FloatOps F} {k : Nat} {topo : Topo} {held : Multiset QueueEvent}
  {id : NodeId} {vtime : VTime} {w : World SimFront}

theorem dims_delivers {good : List UInt8 → Prop} :
    Delivers id vtime good fun w => w.dims = k where
  skip _ h := h
  push _ _ _ h := h
  poke _ _ _ _ _ h := h
  deliver _ _ _ _ _ _ _ _ _ _ h := h

theorem flatWorld_keptTimer :
    KeptTimer simCallback id vtime (FlatPacket k) (fun _ => True) (FlatWorld k topo held) := by
  have hdims : KeptTimer simCallback id vtime (FlatPacket k) (fun _ => True)
      fun w => w.dims = k :=
    { toKept := dims_delivers.kept
      timer := fun _ _ _ _ h => wp_simCallback_timer trivial (fun _ => h) fun _ _ _ => h }
  exact hdims.and (@inFlight_keptTimer topo (fun _ => FlatPacket k) held id vtime)

/-- A node that receives a packet stays where it is, or wakes at a flat location. -/
theorem wp_nodeReceive_virtloc {callback : NodeCallback Front} {good : List UInt8 → Prop}
    {I : World Front → Prop} {node : Node} {ptr : Nat} {packet : Packet} {w : World Front}
    (h : KeptNewTimer callback node.id vtime good (fun _ => True) I)
    (hp : w.heap[ptr]? = some packet) (hw : I w) :
    Wp (nodeReceive callback node vtime ptr) (fun node' _ => node'.virtloc = node.virtloc ∨
      ∃ w₁, I w₁ ∧ node'.virtloc.FlatBeyond w₁.dims) (fun _ => True) w := by
  cases hwakes : node.wakesOn packet with
  | false =>
    refine (wp_nodeReceive_quiet hp hwakes).imp fun node' _ hnode' => ?_
    obtain ⟨neighTable, floodTimeout, rfl⟩ := hnode'
    exact Or.inl rfl
  | true =>
    refine wp_nodeReceive_wake hp hwakes (fun _ => trivial) fun neighs loc hparse => ?_
    refine (h.wp_nodeWake loc hw).imp fun node' w' hw' => ?_
    exact wp_nodeRecord _ _ (beaconParse_ne_nil hparse) (fun _ => trivial)
      fun _ _ => Or.inr hw'.1.2.2

/-- The table of a node stays flat when it receives what nodes send. -/
theorem Received.flat_table {node node' : Node} {packet : Packet}
    (h : Received node vtime packet node') (hpacket : FlatPacket k packet.data)
    (htable : node.neighTable.FlatBeyond k) : node'.neighTable.FlatBeyond k := by
  rcases h.table with hsame | ⟨neighs, htype, hparse, hrecord⟩
  · rwa [hsame]
  · obtain ⟨neighs', hparse', hneighs⟩ := hpacket.2 htype
    cases hparse.symm.trans hparse'
    exact htable.record hneighs (beaconParse_ne_nil hparse) hrecord

/-- Handing an event to its node keeps everything flat. -/
theorem wp_simHandle_flat {node : Node} {e : QueueEvent} (hzero : ops.KeepsZero)
    (h : FlatWorld k topo held w) (he : e ∈ held) (hnode : node.FlatBeyond k) :
    Wp (simHandle ops node e) (fun node' w' => node'.FlatBeyond k ∧ FlatWorld k topo held w')
      (fun _ => True) w := by
  have hkept : KeptTimer simCallback node.id e.vtime (FlatPacket k) (fun _ => True)
      (FlatWorld k topo held) := flatWorld_keptTimer
  unfold simHandle
  cases hptr : e.packet with
  | some ptr =>
    obtain ⟨p, src, dst, hp, hpacket, -⟩ :=
      h.2.sent e (Multiset.mem_add.mpr (Or.inl he)) ptr hptr
    have hworld := hkept.wp_nodeReceive (fun _ => flatPacket_data k) hp (fun _ _ _ => trivial)
      (fun _ _ => trivial) (fun hflood => absurd hflood hpacket.1) h
    have hvirtloc := wp_nodeReceive_virtloc hkept.keptNewTimer hp h
    dsimp only
    rw [wp_bind]
    refine (hworld.and ((wp_nodeReceive_node hp).and hvirtloc)).mono
      (fun node' w' hw' => ?_) fun _ _ => trivial
    obtain ⟨hw', hreceived, hmoved⟩ := hw'
    have hflat : node'.FlatBeyond k := by
      refine ⟨?_, hreceived.flat_table hpacket hnode.table⟩
      rcases hmoved with hsame | ⟨w₁, ⟨rfl, -⟩, hwoken⟩
      · exact hsame ▸ hnode.virtloc
      · exact hwoken
    rw [wp_bind]
    exact (hkept.toKept.keeps_packetFree ptr w' hw').imp fun _ _ hw'' => ⟨hflat, hw''⟩
  | none =>
    refine hkept.keptNewTimer.wp_nodeTimer (fun w₁ node' hw₁ htimed hmoved => ?_)
      (fun _ => flatPacket_beacon) e.extra h
    obtain ⟨rfl, -⟩ := hw₁
    exact ⟨hmoved hzero hnode.virtloc, htimed.table_eq ▸ hnode.table⟩

/-- Route tests send data packets. -/
theorem FlatWorld.tick {nodes : List Node} {vtimeTick vtimeTick' : VTime} {w' : World SimFront}
    (h : FlatWorld k topo held w)
    (htick : simTick nodes vtime vtimeTick w = .ok (vtimeTick', w')) :
    FlatWorld k topo held w' := by
  have hkeeps : Keeps (FlatWorld k topo held) (fun _ => True) (simTick nodes vtime vtimeTick) :=
    keeps_simTick trivial fun node _ => KeptNew.keeps_nodeRouteTest (fun _ => flatPacket_data k)
      flatWorld_keptTimer.toKept.keptNew
  exact (hkeeps w h).of_ok htick

/-- A new node is flat. -/
theorem wp_nodeInit_flat {callback : NodeCallback Front} {nodeOpts : List Char}
    {w : World Front} :
    Wp (nodeInit (some callback) id nodeOpts) (fun node _ => node.FlatBeyond w.dims)
      (fun _ => True) w := by
  have hblank : ∀ status virtloc, virtloc.FlatBeyond w.dims →
      ({ nodeBlank id virtloc with status } : Node).FlatBeyond w.dims := fun _ _ hflat =>
    ⟨hflat, fun _ hentry => absurd hentry List.not_mem_nil⟩
  exact wp_nodeInit
    (fun _ virtloc hflat => (wp_true _ _).imp fun _ _ _ => hblank .root virtloc hflat)
    (fun _ virtloc hflat => (wp_true _ _).imp fun _ _ _ => hblank .awake virtloc hflat)
    fun _ _ virtloc hflat => hblank .asleep virtloc hflat

end World

/-! ## Every run -/

/-- The locations in a state of the simulator are flat. -/
structure Sim.FlatBeyond (k : Nat) (s : Sim) : Prop where
  /-- Those that the nodes keep. -/
  nodes : ∀ node ∈ s.nodes, node.FlatBeyond k
  /-- Those in the beacons on their way. -/
  beacons : ∀ e ∈ s.world.pending, ∀ ptr packet, e.packet = some ptr →
    s.world.heap[ptr]? = some packet → packet.data.headD 0 = packetTypeBeacon →
    FlatBeacon k packet.data

/-- The invariant of the simulator. -/
def FlatSim (k : Nat) (topo : Topo) (s : Sim) : Prop :=
  FlatWorld k topo 0 s.world ∧ ∀ node ∈ s.nodes, node.FlatBeyond k

section Runs

variable {F : Type} {ops : FloatOps F} {k : Nat} {topo : Topo} {s s' : Sim}

theorem FlatSim.flatBeyond (h : FlatSim k topo s) : s.FlatBeyond k where
  nodes := h.2
  beacons e he ptr packet hptr hpacket htype := by
    obtain ⟨p, src, dst, hp, hflat, -⟩ :=
      h.1.2.sent e (Multiset.mem_add.mpr (Or.inr he)) ptr hptr
    obtain rfl : p = packet := Option.some.inj (hp.symm.trans hpacket)
    exact hflat.2 htype

/-- A turn of the main loop keeps the invariant. -/
theorem FlatSim.step (hzero : ops.KeepsZero) {e : QueueEvent} (h : FlatSim k topo s)
    (hstep : SimStep ops s e s') : FlatSim k topo s' := by
  obtain ⟨hworld, hnodes⟩ := h
  obtain ⟨queue, tested, world, nodes, vtimeTick, hpending, htick, hdispatch, rfl⟩ :=
    hstep.turn.ran
  have hheld : FlatWorld k topo {e} (s.world.setQueue queue) :=
    ⟨hworld.1, hworld.2.hold hpending⟩
  obtain ⟨i, node, node', hi, hnode, hhandle, rfl⟩ := simDispatch_cases hdispatch
  have hflat := hnodes node (List.mem_of_getElem? hnode)
  obtain ⟨hflat', hdims, hafter⟩ := (wp_simHandle_flat hzero (hheld.tick htick)
    (Multiset.mem_singleton_self e) hflat).of_ok hhandle
  refine ⟨⟨hdims, hafter.drop⟩, fun m hm => ?_⟩
  rcases List.mem_or_eq_of_mem_set hm with hmem | rfl
  · exact hnodes m hmem
  · exact hflat'

theorem flatSim_start {args : SimArgs} {dims : Int32} (hdims : args.dims = some dims)
    {tape : Nat → Fin randRange} {uninit : Nat → List UInt8}
    (h : simStart args tape uninit = .ok s) : ∃ topo, FlatSim dims.toInt.toNat topo s := by
  obtain ⟨topo, k, nodes, world, -, hk, hnodes, rfl⟩ := simStart_cases h
  obtain rfl : k = dims.toInt.toNat := by
    rw [hdims, simDims, locSetDims] at hk
    split at hk
    · cases hk
      rfl
    · cases hk
  have hrun : Wp (simNodes args.nodeOpts (topo.maxId.toNat + 1))
      (fun nodes w => List.Forall₂ (fun _ node => node.FlatBeyond dims.toInt.toNat)
        (List.range (topo.maxId.toNat + 1)) nodes ∧ FlatWorld dims.toInt.toNat topo 0 w)
      (fun _ => True) _ :=
    wp_mapM (fun _ => FlatWorld dims.toInt.toNat topo 0) _ (fun i _ w hw =>
      (wp_nodeInit_flat.and
        (flatWorld_keptTimer.keptNewTimer.keeps_nodeInit args.nodeOpts w hw)).mono
        (fun _ _ hw' => ⟨hw.1 ▸ hw'.1, hw'.2⟩) fun _ _ => trivial)
      ⟨rfl, inFlight_blank topo _ (simEschaton args.timeout) tape uninit⟩
  obtain ⟨hflat, hworld⟩ := hrun.of_ok hnodes
  refine ⟨topo, hworld, fun node hmem => ?_⟩
  obtain ⟨i, hi⟩ := List.getElem?_of_mem hmem
  exact (forall₂_range hflat hi).2

end Runs

/-- In every state of every run of `k` dimensions the coordinates beyond the first `k` are zero. -/
theorem simulation_flat {F : Type} {ops : FloatOps F} (hzero : ops.KeepsZero) {args : SimArgs}
    {dims : Int32} (hdims : args.dims = some dims) {tape : Nat → Fin randRange}
    {uninit : Nat → List UInt8} {s : Sim} (h : SimReachable ops args tape uninit s) :
    s.FlatBeyond dims.toInt.toNat := by
  obtain ⟨s₀, events, hstart, hrun⟩ := h
  obtain ⟨topo, hflat⟩ := flatSim_start hdims hstart
  have hlast : FlatSim dims.toInt.toNat topo s :=
    hrun.keeps (fun _ _ _ hs hstep => hs.step hzero hstep) hflat
  exact hlast.flatBeyond

theorem simulation_flat_twoNodes :
    ∃ s, SimReachable integerOps { twoNodes with dims := some 2 } (tapeOf [3, 17, 25, 3])
        (fun _ => []) s ∧
      s.nodes.map Node.virtloc = [locZero, { x := -6, y := -7, z := 0 }] ∧ s.FlatBeyond 2 := by
  have hrun : (do
      let s ← simStart { twoNodes with dims := some 2 } (tapeOf [3, 17, 25, 3]) fun _ => []
      let r ← simRun integerOps (fun _ _ => true) 4 s
      return r.2.nodes.map Node.virtloc) =
        (Except.ok [locZero, { x := -6, y := -7, z := 0 }] : Except Abort _) := by
    decide +kernel
  obtain ⟨s₀, hstart, hrun⟩ := bind_eq_ok hrun
  obtain ⟨⟨events, s⟩, hevents, hrun⟩ := bind_eq_ok hrun
  have hreach : SimReachable integerOps { twoNodes with dims := some 2 } (tapeOf [3, 17, 25, 3])
      (fun _ => []) s := .of_simRun integerOps hstart hevents
  have hdims : ({ twoNodes with dims := some 2 } : SimArgs).dims = some 2 := rfl
  exact ⟨s, hreach, Except.ok.inj hrun, simulation_flat integerOps_keepsZero hdims hreach⟩

end OldRadio.Second
