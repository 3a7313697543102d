import OldRadio.Second.Deliveries
import OldRadio.Second.Overflow

/-!
# What stops the simulator

A packet that is read is held by the event that carries it, a node that is asked
for is there, and what nodes send is as long as their receivers assert. So no
turn of the main loop reads freed memory or leaves an array, whatever the
network and the outcomes of `rand` are: it stops at a full neighbour table or at
a full queue only.
-/

namespace OldRadio.Second

open Library
open Node (M)

/-- The assertions that a turn of the main loop may fail. -/
def Stops (e : Abort) : Prop := e = .neighTableFull ∨ e = .queueFull

instance (e : Abort) : Decidable (Stops e) := inferInstanceAs (Decidable (_ ∨ _))

/-! ## Route tests find their nodes -/

section RouteTests

variable {topo : Topo} {nodes : List Node}

/-- There is a node for every identity up to the largest. -/
theorem SoundNodes.exists_node (h : SoundNodes topo nodes) {id : NodeId}
    (hid : id.toNat ≤ topo.maxId.toNat) : ∃ node, nodes[id.toNat]? = some node ∧ node.id = id := by
  have hlt : id.toNat < nodes.length := by
    rw [h.length_eq]
    exact Nat.lt_succ_of_le hid
  have hget := List.getElem?_eq_getElem hlt
  exact ⟨_, hget, UInt16.toNat_inj.mp (h.sound _ _ hget).1⟩

theorem SoundNodes.routeTestLoop_ok (h : SoundNodes topo nodes) (node2 : NodeId) (loc : Loc)
    (maxstrat : Int) (turns i : Nat) {hop : NodeId} (hhop : hop.toNat ≤ topo.maxId.toNat) :
    ∃ r, routeTestLoop nodes node2 loc maxstrat turns i hop = .ok r := by
  induction turns generalizing i hop with
  | zero => exact ⟨0, rfl⟩
  | succ turns ih =>
    obtain ⟨node, hnode, rfl⟩ := h.exists_node hhop
    rw [routeTestLoop, hnode, access_some, ok_bind]
    dsimp only
    split
    · exact ⟨i, rfl⟩
    · split
      · exact ⟨0, rfl⟩
      · rename_i hvalid
        exact ih (i + 1) ((h.sound _ node hnode).2.adj_route hvalid).1.le_maxId.2

theorem SoundNodes.simRouteTestOne_ok (h : SoundNodes topo nodes) {node1 node2 : NodeId}
    (h1 : node1.toNat ≤ topo.maxId.toNat) (h2 : node2.toNat ≤ topo.maxId.toNat) (maxstrat : Int) :
    ∃ r, simRouteTestOne nodes node1 node2 maxstrat = .ok r := by
  obtain ⟨dest, hdest, -⟩ := h.exists_node h2
  rw [simRouteTestOne, hdest, access_some, ok_bind]
  exact h.routeTestLoop_ok node2 dest.virtloc maxstrat 99 1 h1

/-- The route tests that are only printed do not stop. -/
theorem SoundNodes.simRouteTest_ok (h : SoundNodes topo nodes) :
    ∃ r, simRouteTest nodes = .ok r := by
  refine exists_mapM_ok fun i hi => ?_
  rw [List.mem_range'_1, h.length_eq] at hi
  have hmax := topo.maxId.toNat_lt
  have hid : (UInt16.ofNat i).toNat ≤ topo.maxId.toNat := by
    rw [UInt16.toNat_ofNat', Nat.mod_eq_of_lt (show i < 2 ^ 16 by omega)]
    omega
  have hzero : (0 : NodeId).toNat ≤ topo.maxId.toNat := Nat.zero_le _
  obtain ⟨h11, hr11⟩ := h.simRouteTestOne_ok hid hzero 1
  obtain ⟨h12, hr12⟩ := h.simRouteTestOne_ok hzero hid 1
  obtain ⟨h21, hr21⟩ := h.simRouteTestOne_ok hid hzero 2
  obtain ⟨h22, hr22⟩ := h.simRouteTestOne_ok hzero hid 2
  refine ⟨[h11, h12, h21, h22], ?_⟩
  dsimp only
  rw [hr11, ok_bind, hr12, ok_bind, hr21, ok_bind, hr22, ok_bind]
  rfl

end RouteTests

/-! ## Node code holds what it reads -/

section Node

variable {id : NodeId} {vtime : VTime} {m : Medium} {done held : Multiset QueueEvent}
  {bad : Abort → Prop}

/-- Freeing a packet that is held does not stop. -/
theorem wp_packetFree_held {Front : Type} {w : World Front} {ptr : Nat} {p : Packet}
    (hp : w.heap[ptr]? = some p) (hheld : p.refcount ≠ 0) :
    Wp (packetFree ptr) (fun _ _ => True) bad w :=
  (wp_packetFree_iff hp).mpr ⟨fun hfree => absurd hfree hheld, fun _ => trivial⟩

/-- Delivering a packet that is held stops at a full queue only, and leaves it held. -/
theorem wp_deliverHeld (hfull : bad .queueFull) {ptr : Nat} (links : List TopoEntry)
    {w : World SimFront} (h : ∃ p : Packet, w.heap[ptr]? = some p ∧ p.refcount ≠ 0) :
    Wp (forM links (simDeliver vtime ptr none))
      (fun _ w' => ∃ p : Packet, w'.heap[ptr]? = some p ∧ p.refcount ≠ 0) bad w := by
  refine wp_forM (fun _ (w' : World SimFront) =>
    ∃ p, w'.heap[ptr]? = some p ∧ p.refcount ≠ 0) ?_ h
  rintro t ts w' ⟨p, hp, hheld⟩
  rw [simDeliver, wp_bind]
  refine (wp_packetRead_iff hp).mpr ⟨fun hfree => absurd hfree hheld, fun _ => ?_⟩
  simp only [simPropDelay, wp_bind, wp_rand, wp_pure, wp_get]
  split
  · rw [packetClone, wp_bind, wp_bind]
    have hp' : (w'.skip 1).heap[ptr]? = some p := hp
    refine (wp_packetRead_iff hp').mpr ⟨fun hfree => absurd hfree hheld, fun _ => ?_⟩
    exact wp_simInsert hfull fun queue _ => ⟨_, heap_poke hp', Nat.succ_ne_zero _⟩
  · exact ⟨p, hp, hheld⟩

/-- Sending a new packet stops at a full queue only. -/
theorem wp_sendNew_full (hfull : bad .queueFull) {w : World Traced} {data : List UInt8}
    (hne : data ≠ []) : Wp (sendNew tracedCallback id vtime data) (fun _ _ => True) bad w := by
  rw [sendNew, wp_bind, wp_packetAlloc hne, wp_bind, tracedCallback, recordSend, wp_bind, wp_bind,
    wp_get, wp_writeLog, wp_besideLog, simCallback, wp_bind, wp_get]
  refine (wp_deliverHeld hfull _ ⟨_, w.push_heap _, Nat.one_ne_zero⟩).imp fun _ w' hw' => ?_
  obtain ⟨p, hp, hheld⟩ := hw'
  exact wp_packetFree_held hp hheld

/-- What a node does while it handles an event stops where its own checks do. -/
theorem stops_keptNewTimer :
    KeptNewTimer tracedCallback id vtime Known Stops (Accounts m done held) where
  skip _ h := ⟨h.medium_eq, h.length_eq, h.known, h.due, h.valid, h.account⟩
  sendNew data hne hdata w h := by
    have hfull : Wp (sendNew tracedCallback id vtime data) (fun _ _ => True) Stops w :=
      wp_sendNew_full (Or.inr rfl) hne
    exact ((accounts_keptNewTimer.sendNew data hne hdata w h).and hfull).mono
      (fun _ _ hw' => hw'.1) fun _ he => he.2
  timer w delay extra _ h := by
    refine (wp_tracedCallback_timer (Or.inr rfl)).imp fun _ w' hw' => ?_
    obtain ⟨queue, new, hpending, hnew, rfl⟩ := hw'
    exact h.timer hpending hnew

end Node

/-! ## One turn -/

section Turn

variable {F : Type} {ops : FloatOps F} {topo : Topo} {m : Medium}
  {done held : Multiset QueueEvent} {w : World Traced}

/-- The route tests of a tick find their nodes, and stop where sending does. -/
theorem wp_tracedTick_stops {nodes : List Node} (hnodes : SoundNodes topo nodes)
    (h : Accounts m done held w) (tick : Nat) (vtime vtimeTick : VTime) :
    Wp (tracer.tick tick nodes vtime vtimeTick) (fun _ => Accounts m done held) Stops w := by
  have hkeeps : Keeps (Accounts m done held) Stops (tracer.tick tick nodes vtime vtimeTick) := by
    refine Logger.keeps_tick (fun err he => ?_) (fun _ _ _ hw => hw.startedBy _) fun _ _ => ?_
    · obtain ⟨r, hr⟩ := hnodes.simRouteTest_ok
      cases he.symm.trans hr
    · exact stops_keptNewTimer.toKeptNew.keeps_nodeRouteTest fun _ => Known.data
  exact hkeeps w h

/-- The packet of an event that is being handled is held. -/
theorem Accounts.held_ne_zero {e : QueueEvent} {ptr : Nat} {p : Packet}
    (h : Accounts m done {e} w) (hptr : e.packet = some ptr) (hp : w.heap[ptr]? = some p) :
    p.refcount ≠ 0 := by
  have hlt := (List.getElem?_eq_some_iff.mp hp).1
  rw [← h.length_eq] at hlt
  obtain ⟨-, hrefcount, -⟩ := h.account ptr _ p (List.getElem?_eq_getElem hlt) hp
  rw [hrefcount, Multiset.singleton_add,
    Multiset.countP_cons_of_pos _ (show Carries ptr e from hptr)]
  exact Nat.succ_ne_zero _

/-- Handing an event to its node stops at the node's table, or where sending does. -/
theorem wp_tracedHandle_stops {node : Node} {e : QueueEvent} (h : Accounts m done {e} w)
    (hsound : SoundWorld topo {e} (w.mapFront Logged.sim)) :
    Wp (tracer.handle ops node e) (fun _ _ => True) Stops w := by
  have hkept : KeptNewTimer tracedCallback node.id e.vtime Known Stops (Accounts m done {e}) :=
    stops_keptNewTimer
  cases hptr : e.packet with
  | some ptr =>
    rw [Logger.wp_handle_packet hptr]
    obtain ⟨p, src, dst, hp, hsent, -, -⟩ :=
      hsound.sent e (Multiset.mem_add.mpr (Or.inl (Multiset.mem_singleton_self e))) ptr hptr
    have hknown := h.known p (List.mem_of_getElem? hp)
    have hp' : (w.setFront { w.front with log := tracer.beforeEvent e w.front.log }).heap[ptr]? =
        some p := hp
    refine (hkept.wp_nodeReceive (fun _ _ => Known.data) hp'
      (fun hfree => absurd hfree (h.held_ne_zero hptr hp)) (fun err htype herr => ?_)
      (fun _ _ _ _ _ => Or.inl rfl) (fun htype hshort => ?_)
      (fun hflood => absurd hflood hknown.not_flood)
      (h.startedBy _)).imp fun node' w' hw' => ?_
    · -- a beacon is parsed by who receives it
      rcases hsent.2 with hdata | ⟨-, neighs, hparse, -⟩
      · rw [htype] at hdata
        exact absurd hdata (by decide)
      · cases herr.symm.trans hparse
    · -- a data packet is as long as its layout
      rcases hknown with hbeacon | ⟨d, -, hd⟩
      · rw [htype] at hbeacon
        exact absurd hbeacon (by decide)
      · rw [hd, packetDataLayout.length_encode] at hshort
        exact absurd hshort (Nat.lt_irrefl _)
    · have hlt := hw'.valid e (Multiset.mem_add.mpr (Or.inr (Multiset.mem_add.mpr
        (Or.inl (Multiset.mem_singleton_self e))))) ptr hptr
      have hlast := List.getElem?_eq_getElem hlt
      exact wp_packetFree_held hlast (hw'.held_ne_zero hptr hlast)
  | none =>
    rw [Logger.wp_handle_timer hptr]
    exact (hkept.keeps_nodeTimer (fun node' _ => Known.beacon node') e.extra _
      (h.startedBy _)).imp fun _ _ _ => trivial

end Turn

/-! ## Every event is for a node that is there -/

/-- Every event to come is for a node. -/
structure Addressed (topo : Topo) (w : World SimFront) : Prop where
  /-- The topology does not change. -/
  topo_eq : w.front.topo = topo
  /-- The node of each event. -/
  node : ∀ e ∈ w.pending, ∃ id : NodeId, e.node = some id.toNat ∧ id.toNat ≤ topo.maxId.toNat

section Addressed

variable {F : Type} {ops : FloatOps F} {topo : Topo} {w : World SimFront}

/-- An event more. -/
theorem Addressed.cons (h : Addressed topo w) {id : NodeId} (hid : id.toNat ≤ topo.maxId.toNat)
    {e : QueueEvent} (he : e.node = some id.toNat) {queue : EventQueue}
    (hqueue : queue.pending = e ::ₘ w.pending) : Addressed topo (w.setQueue queue) := by
  refine ⟨h.topo_eq, fun f hf => ?_⟩
  rw [World.setQueue_pending, hqueue] at hf
  rcases Multiset.mem_cons.mp hf with rfl | hf
  · exact ⟨id, he, hid⟩
  · exact h.node f hf

/-- Nodes address each other over links, and themselves. -/
theorem addressed_keptTimer {id : NodeId} (hid : id.toNat ≤ topo.maxId.toNat) (vtime : VTime) :
    KeptTimer simCallback id vtime (fun _ => True) (fun _ => True) (Addressed topo) where
  toKept := Delivers.kept
    { skip := fun _ h => ⟨h.topo_eq, h.node⟩
      push := fun _ _ _ h => ⟨h.topo_eq, h.node⟩
      poke := fun _ _ _ _ _ h => ⟨h.topo_eq, h.node⟩
      deliver := fun _ _ _ _ _ _ _ _ ht hqueue h =>
        h.cons (h.topo_eq ▸ link_of_mem_topoIter ht).le_maxId.2 rfl hqueue }
  timer w _ _ _ h := wp_simCallback_timer trivial (fun _ => ⟨h.topo_eq, h.node⟩)
    fun _ _ hqueue => Addressed.cons (w := w.skip 1) ⟨h.topo_eq, h.node⟩ hid rfl hqueue

/-- Taking an event out of the queue leaves the others as they are. -/
theorem Addressed.hold (h : Addressed topo w) {e : QueueEvent} {queue : EventQueue}
    (hpending : w.pending = e ::ₘ queue.pending) : Addressed topo (w.setQueue queue) := by
  refine ⟨h.topo_eq, fun f hf => h.node f ?_⟩
  rw [World.setQueue_pending] at hf
  rw [hpending]
  exact Multiset.mem_cons_of_mem hf

/-- A turn of the main loop keeps every event addressed. -/
theorem Addressed.step {s s' : Sim} {e : QueueEvent} (h : Addressed topo s.world)
    (hnodes : SoundNodes topo s.nodes) (hstep : SimStep ops s e s') :
    Addressed topo s'.world := by
  obtain ⟨queue, tested, world, nodes, vtimeTick, hpending, htick, hdispatch, rfl⟩ :=
    hstep.turn.ran
  have hplaced : ∀ i (node : Node), s.nodes[i]? = some node →
      node.id.toNat ≤ topo.maxId.toNat := fun i node hnode => by
    have hlt := (List.getElem?_eq_some_iff.mp hnode).1
    rw [hnodes.length_eq] at hlt
    rw [(hnodes.sound i node hnode).1]
    omega
  have htested : Addressed topo tested := by
    have hkeeps : Keeps (Addressed topo) (fun _ => True)
        (simTick s.nodes e.vtime s.vtimeTick) := keeps_simTick trivial fun node hmem => by
      obtain ⟨i, hi⟩ := List.getElem?_of_mem hmem
      exact KeptNew.keeps_nodeRouteTest (fun _ _ => trivial)
        (addressed_keptTimer (hplaced i node hi) _).toKept.keptNew
    exact (hkeeps _ (h.hold hpending)).of_ok htick
  obtain ⟨i, node, node', -, hnode, hhandle, rfl⟩ := simDispatch_cases hdispatch
  exact ((addressed_keptTimer (hplaced i node hnode) _).keeps_simHandle _ htested).of_ok hhandle

theorem addressed_start {args : SimArgs} {tape : Nat → Fin randRange} {uninit : Nat → List UInt8}
    {s : Sim} (h : simStart args tape uninit = .ok s) (htopo : topoRead args.links = .ok topo) :
    Addressed topo s.world := by
  obtain ⟨topo', dims, nodes, world, htopo', -, hnodes, rfl⟩ := simStart_cases h
  cases htopo.symm.trans htopo'
  have hmax := topo.maxId.toNat_lt
  have hkeeps : Keeps (Addressed topo) (fun _ => True)
      (simNodes args.nodeOpts (topo.maxId.toNat + 1)) := keeps_mapM fun i hi => by
    rw [List.mem_range] at hi
    refine (addressed_keptTimer ?_ _).keptNewTimer.keeps_nodeInit args.nodeOpts
    rw [UInt16.toNat_ofNat', Nat.mod_eq_of_lt (show i < 2 ^ 16 by omega)]
    omega
  refine (hkeeps _ ⟨rfl, fun e he => ?_⟩).of_ok hnodes
  exact absurd he (Multiset.notMem_zero e)

end Addressed

/-! ## Every run -/

section Runs

variable {F : Type} {ops : FloatOps F}

/-- A turn in a state with the books right stops at a full table or a full queue only. -/
theorem simStep_error {topo : Topo} {m : Medium} {done : Multiset QueueEvent} {t : TracedSim}
    (hsound : SoundSim topo t.erase) (haddressed : Addressed topo t.erase.world)
    (haccounts : Accounts m done 0 t.world) {err : Abort}
    (h : simStep ops t.erase = .error err) : Stops err := by
  rcases t.erase.world.front.queue.pop_cases with ⟨-, hpop⟩ | ⟨e, queue, hpop, hqueue, -⟩
  · rw [simStep, hpop, ok_bind] at h
    cases h
  rw [simStep, hpop, ok_bind] at h
  dsimp only at h
  split at h
  · cases h
  have hpending : t.erase.world.pending = e ::ₘ queue.pending := hqueue
  have hheld : Accounts m done {e} (t.world.setFront (t.world.front.setQueue queue)) :=
    haccounts.hold hpending
  have hticked := wp_tracedTick_stops hsound.2 hheld t.ticks e.vtime t.vtimeTick
  have hprojects := tracer.projects_tick t.ticks t.nodes e.vtime t.vtimeTick
  rcases bind_eq_error h with htick | ⟨⟨vtimeTick, tested⟩, htick, h⟩
  · exact hticked.of_error
      (hprojects.of_error (s := t.world.setFront (t.world.front.setQueue queue)) htick)
  rcases bind_eq_error h with hdispatch | ⟨_, -, h⟩
  swap
  · cases h
  obtain ⟨tested', htested, rfl⟩ :=
    hprojects.of_ok (s := t.world.setFront (t.world.front.setQueue queue)) htick
  have hworld : SoundWorld topo {e} (tested'.mapFront Logged.sim) :=
    (hsound.1.hold hpending).tick htick
  obtain ⟨id, hid, hle⟩ := haddressed.node e (by
    rw [hpending]
    exact Multiset.mem_cons_self e _)
  obtain ⟨node, hnode, rfl⟩ := hsound.2.exists_node hle
  rw [simDispatch, hid] at hdispatch
  have hget : t.erase.nodes[node.id.toNat]? = some node := hnode
  simp only [access_some, MonadExcept.ofExcept, pure_bind, hget] at hdispatch
  rcases bind_eq_error hdispatch with hhandle | ⟨_, -, hdone⟩
  · exact (wp_tracedHandle_stops (hticked.of_ok htested) hworld).of_error
      ((tracer.projects_handle ops node e).of_error hhandle)
  · cases hdone

theorem SimReachable.stops {args : SimArgs} {tape : Nat → Fin randRange}
    {uninit : Nat → List UInt8} {s : Sim} (h : SimReachable ops args tape uninit s) {err : Abort}
    (herr : simStep ops s = .error err) : Stops err := by
  obtain ⟨s₀, events, hstart, hrun⟩ := h
  obtain ⟨t, htraced, rfl⟩ := simRun_traced ops hstart hrun
  obtain ⟨_, -, haccounts⟩ := htraced.accounts
  obtain ⟨topo, htopo, hsound⟩ := soundSim_start hstart
  obtain ⟨hsound, haddressed⟩ := hrun.keeps
    (I := fun s => SoundSim topo s ∧ Addressed topo s.world)
    (fun _ _ _ hs hstep => ⟨hs.1.step hstep, hs.2.step hs.1.2 hstep⟩)
    ⟨hsound, addressed_start hstart htopo⟩
  exact simStep_error hsound haddressed haccounts herr

/-- From every state of every run, a turn of the main loop reads no packet that was freed and
leaves no array: it succeeds, or stops at a full neighbour table or a full queue. -/
theorem simStep_stops (ops : FloatOps F) {args : SimArgs} {tape : Nat → Fin randRange}
    {uninit : Nat → List UInt8} {s : Sim} (h : SimReachable ops args tape uninit s) :
    (∃ next, simStep ops s = .ok next) ∨ simStep ops s = .error .neighTableFull ∨
      simStep ops s = .error .queueFull := by
  cases hstep : simStep ops s with
  | ok next => exact Or.inl ⟨next, rfl⟩
  | error err =>
    rcases h.stops hstep with rfl | rfl
    · exact Or.inr (Or.inl rfl)
    · exact Or.inr (Or.inr rfl)

theorem simStep_stops_twoNodes :
    ∃ s, SimReachable integerOps twoNodes (fun _ => 0) (fun _ => []) s ∧ s.world.heap.length = 2 ∧
      ((∃ next, simStep integerOps s = .ok next) ∨ simStep integerOps s = .error .neighTableFull ∨
        simStep integerOps s = .error .queueFull) := by
  have hrun : (do
      let s ← simStart twoNodes (fun _ => 0) fun _ => []
      let r ← simRun integerOps (fun _ _ => true) 3 s
      return r.2.world.heap.length) = (Except.ok 2 : Except Abort _) := by decide +kernel
  obtain ⟨s₀, hstart, hrun⟩ := bind_eq_ok hrun
  obtain ⟨⟨events, s⟩, hevents, hrun⟩ := bind_eq_ok hrun
  have hreach : SimReachable integerOps twoNodes (fun _ => 0) (fun _ => []) s :=
    .of_simRun integerOps hstart hevents
  exact ⟨s, hreach, Except.ok.inj hrun, simStep_stops integerOps hreach⟩

end Runs

end OldRadio.Second
