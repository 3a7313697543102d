import OldRadio.Second.Sim

/-!
# What the simulator's callback does

A timer request adds one event, a packet one event for each link, unless they
are due at `Eschaton` or later. A property of the simulator kept by these is
kept by the node code it runs.
-/

namespace OldRadio.Second

open Library
open Node (M)

/-- The events to come. -/
def World.pending (w : World SimFront) : Multiset QueueEvent := w.front.queue.pending

/-- The world with another queue. -/
def World.setQueue (w : World SimFront) (queue : EventQueue) : World SimFront :=
  w.setFront { w.front with queue }

@[simp] theorem World.setQueue_pending (w : World SimFront) (queue : EventQueue) :
    (w.setQueue queue).pending = queue.pending := rfl
/-- The timer event that `sim_callback` makes for the outcome `r` of `rand`. -/
def timerEvent (id : NodeId) (vtime : VTime) (extra : Option Nat) (r : Nat) : QueueEvent :=
  { vtime := vtime.after (r % simTimerDelayFuzz), node := some id.toNat, packet := none, extra }

/-- The event that `sim_callback` makes for a packet at the end of a link. -/
def packetEvent (dst : NodeId) (vtime : VTime) (ptr : Nat) (extra : Option Nat) (length r : Nat) :
    QueueEvent :=
  { vtime := vtime.after (propDelay length r), node := some dst.toNat, packet := some ptr, extra }

section Specs

variable {good : Unit → World SimFront → Prop} {bad : Abort → Prop} {w : World SimFront}

theorem wp_simInsert {e : QueueEvent} (hfull : bad .queueFull)
    (h : ∀ queue : EventQueue, queue.pending = e ::ₘ w.pending → good () (w.setQueue queue)) :
    Wp (simInsert e) good bad w := by
  rw [Wp, simInsert]
  cases hrun : w.front.queue.insert e with
  | ok queue => exact h queue (EventQueue.insert_ok hrun)
  | error e' => exact EventQueue.insert_error hrun ▸ hfull

/-- A timer request calls `rand` once and adds the event it makes, if that is before `Eschaton`. -/
theorem wp_simCallback_timer {id : NodeId} {vtime : VTime} {extra : Option Nat}
    (hfull : bad .queueFull)
    (hdrop : w.front.eschaton ≤ (timerEvent id vtime extra (w.rand 0)).vtime →
      good () (w.skip 1))
    (hsend : (timerEvent id vtime extra (w.rand 0)).vtime < w.front.eschaton →
      ∀ queue : EventQueue, queue.pending = timerEvent id vtime extra (w.rand 0) ::ₘ w.pending →
        good () ((w.skip 1).setQueue queue)) :
    Wp (simCallback id vtime none extra) good bad w := by
  simp only [simCallback, simTimerDelay, wp_bind, wp_rand, wp_pure, wp_get]
  split
  · rename_i hlt
    exact wp_simInsert hfull (hsend hlt)
  · rename_i hge
    exact hdrop (VTime.le_of_not_lt hge)

/-- A delivery calls `rand` once and, before `Eschaton`, adds the event and holds the packet. -/
theorem wp_simDeliver {vtime : VTime} {ptr : Nat} {extra : Option Nat} {t : TopoEntry}
    {packet : Packet} (hp : w.heap[ptr]? = some packet) (hfreed : bad .packetFreed)
    (hfull : bad .queueFull)
    (hdrop : w.front.eschaton ≤
        (packetEvent t.dst vtime ptr extra packet.data.length (w.rand 0)).vtime →
      good () (w.skip 1))
    (hsend : (packetEvent t.dst vtime ptr extra packet.data.length (w.rand 0)).vtime <
        w.front.eschaton →
      ∀ queue : EventQueue,
        queue.pending =
          packetEvent t.dst vtime ptr extra packet.data.length (w.rand 0) ::ₘ w.pending →
        good () (((w.skip 1).poke ptr { packet with refcount := packet.refcount + 1 }).setQueue
          queue)) :
    Wp (simDeliver vtime ptr extra t) good bad w := by
  rw [simDeliver, wp_bind]
  refine wp_packetRead hfreed fun p hp' => ?_
  obtain rfl : p = packet := Option.some.inj (hp'.symm.trans hp)
  simp only [simPropDelay, wp_bind, wp_rand, wp_pure, wp_get]
  split
  · rename_i hlt
    rw [packetClone, wp_bind, wp_bind]
    refine wp_packetRead hfreed fun p' hp'' => ?_
    obtain rfl : p' = p := Option.some.inj (hp''.symm.trans hp)
    exact wp_simInsert hfull (hsend hlt)
  · rename_i hge
    exact hdrop (VTime.le_of_not_lt hge)

end Specs

/-- A property kept by what `sim_callback` does for a good packet of node `id` at `vtime`. -/
structure Delivers (id : NodeId) (vtime : VTime) (good : List UInt8 → Prop)
    (I : World SimFront → Prop) : Prop where
  /-- A call of `rand`. -/
  skip : ∀ w, I w → I (w.skip 1)
  /-- An allocation. -/
  push : ∀ w data, good data → I w → I (w.push { refcount := 1, data })
  /-- A change of a packet's holders. -/
  poke : ∀ w ptr p n, w.heap[ptr]? = some p → I w → I (w.poke ptr { p with refcount := n })
  /-- An event at the end of a link of the node. -/
  deliver : ∀ w ptr p t r (queue : EventQueue), w.heap[ptr]? = some p → good p.data →
    t ∈ topoIter w.front.topo id →
    queue.pending = packetEvent t.dst vtime ptr none p.data.length r ::ₘ w.pending →
    I w → I (w.setQueue queue)

theorem heap_poke {Front : Type} {w : World Front} {ptr : Nat} {p p' : Packet}
    (h : w.heap[ptr]? = some p) : (w.poke ptr p').heap[ptr]? = some p' := by
  rw [World.poke, List.getElem?_set_self (List.getElem?_eq_some_iff.mp h).1]

/-- Counting the holders of a packet leaves every packet its bytes. -/
theorem heap_poke_data {Front : Type} {w : World Front} {ptr : Nat} {p : Packet}
    (h : w.heap[ptr]? = some p) (n i : Nat) :
    ((w.poke ptr { p with refcount := n }).heap[i]?).map Packet.data =
      (w.heap[i]?).map Packet.data := by
  rcases eq_or_ne ptr i with rfl | hne
  · rw [heap_poke h, h]
    rfl
  · rw [World.poke, List.getElem?_set_ne hne]

/-- Every packet is there afterwards. -/
theorem exists_heap_poke {Front : Type} {w : World Front} {ptr n i : Nat} {p q : Packet}
    (h : w.heap[ptr]? = some p) (hq : w.heap[i]? = some q) :
    ∃ q', (w.poke ptr { p with refcount := n }).heap[i]? = some q' ∧ q'.data = q.data := by
  have hdata := heap_poke_data h n i
  rw [hq] at hdata
  exact Option.map_eq_some_iff.mp hdata

/-- Every packet was there before. -/
theorem exists_of_heap_poke {Front : Type} {w : World Front} {ptr n i : Nat} {p q : Packet}
    (h : w.heap[ptr]? = some p)
    (hq : (w.poke ptr { p with refcount := n }).heap[i]? = some q) :
    ∃ q', w.heap[i]? = some q' ∧ q'.data = q.data := by
  have hdata := (heap_poke_data h n i).symm
  rw [hq] at hdata
  exact Option.map_eq_some_iff.mp hdata

theorem heap_push {Front : Type} {w : World Front} {ptr : Nat} {p : Packet}
    (h : w.heap[ptr]? = some p) (p' : Packet) : (w.push p').heap[ptr]? = some p := by
  rw [World.push, List.getElem?_append_left (List.getElem?_eq_some_iff.mp h).1, h]

namespace Delivers

variable {id : NodeId} {vtime : VTime} {good : List UInt8 → Prop} {bad : Abort → Prop}
  {I : World SimFront → Prop} (h : Delivers id vtime good I) (hfreed : bad .packetFreed)
  (hfull : bad .queueFull)
include h hfreed hfull

/-- Sending a packet stops at a packet that is held no more, or at a full queue. -/
theorem wp_send {w : World SimFront} {ptr : Nat} {p : Packet} (hp : w.heap[ptr]? = some p)
    (hgood : good p.data) (hw : I w) :
    Wp (simCallback id vtime (some ptr) none) (fun _ => I) bad w := by
  let rest : List TopoEntry → World SimFront → Prop := fun ts w' =>
    (∀ t ∈ ts, t ∈ topoIter w.front.topo id) ∧ w'.front.topo = w.front.topo ∧
      (∃ p', w'.heap[ptr]? = some p' ∧ p'.data = p.data) ∧ I w'
  have hstep : ∀ t ts w', rest (t :: ts) w' →
      Wp (simDeliver vtime ptr none t) (fun _ => rest ts) bad w' := by
    rintro t ts w' ⟨hts, htopo, ⟨p', hp', hdata⟩, hw'⟩
    have hts' : ∀ t ∈ ts, t ∈ topoIter w.front.topo id := fun t' ht' =>
      hts t' (List.mem_cons_of_mem t ht')
    refine wp_simDeliver hp' hfreed hfull (fun _ => ?_) fun _ queue hqueue => ?_
    · exact ⟨hts', htopo, ⟨p', hp', hdata⟩, h.skip _ hw'⟩
    · refine ⟨hts', htopo, ⟨_, heap_poke hp', hdata⟩, ?_⟩
      refine h.deliver _ ptr _ t _ queue (heap_poke hp') (hdata ▸ hgood) ?_ hqueue
        (h.poke _ ptr p' _ hp' (h.skip _ hw'))
      exact htopo ▸ hts t List.mem_cons_self
  rw [simCallback, wp_bind, wp_get]
  exact (wp_forM rest hstep ⟨fun _ ht => ht, rfl, ⟨p, hp, rfl⟩, hw⟩).imp
    fun _ _ hrest => hrest.2.2.2

/-- A property that deliveries keep is kept by sending a new packet. -/
theorem keeps_sendNew {data : List UInt8} (hne : data ≠ []) (hgood : good data) :
    Keeps I bad (sendNew simCallback id vtime data) := by
  intro w hw
  rw [sendNew, wp_bind, wp_packetAlloc hne, wp_bind]
  refine (h.wp_send hfreed hfull (w.push_heap _) hgood (h.push w data hgood hw)).imp
    fun _ w' hw' => ?_
  rw [packetFree, wp_bind]
  exact wp_packetRead hfreed fun p hp => h.poke w' _ p _ hp hw'

theorem keptNew : KeptNew simCallback id vtime good bad I where
  skip := h.skip
  sendNew _ hne hgood := h.keeps_sendNew hfreed hfull hne hgood

omit hfreed hfull in
/-- A property that deliveries keep is kept by sending a packet. -/
theorem kept : Kept simCallback id vtime good (fun _ => True) I where
  skip := h.skip
  push := h.push
  poke := h.poke
  freed := trivial
  full := trivial
  bounds := trivial
  send _ _ _ hp hgood hw := h.wp_send trivial trivial hp hgood hw

end Delivers

/-! ## One turn of the main loop -/

section Turn

variable {F : Type} {ops : FloatOps F}

/-- What a turn of the main loop did. -/
structure SimTurn (ops : FloatOps F) (s : Sim) (e : QueueEvent) (s' : Sim) : Prop where
  /-- It took the event out of the queue, ran the route tests and handed the event to its node. -/
  ran : ∃ (queue : EventQueue) (tested world : World SimFront) (nodes : List Node)
      (vtimeTick : VTime),
    s.world.pending = e ::ₘ queue.pending ∧
    simTick s.nodes e.vtime s.vtimeTick (s.world.setQueue queue) = .ok (vtimeTick, tested) ∧
    simDispatch ops s.nodes e tested = .ok (nodes, world) ∧
    s' = { world, nodes, vtimeTick }
  /-- The event was due first. -/
  first : ∀ f ∈ s.world.pending, e.vtime.toNat ≤ f.vtime.toNat

/-- A turn that handles an event takes a first one, tests routes, and hands it over. -/
theorem SimStep.turn {s s' : Sim} {e : QueueEvent} (h : SimStep ops s e s') :
    SimTurn ops s e s' := by
  unfold SimStep simStep at h
  obtain ⟨⟨e', queue⟩, hpop, h⟩ := bind_eq_ok h
  dsimp only at h
  split at h
  · cases h
  · rename_i hinf
    obtain ⟨⟨vtimeTick, tested⟩, htick, h⟩ := bind_eq_ok h
    obtain ⟨⟨nodes, world⟩, hdispatch, h⟩ := bind_eq_ok h
    cases h
    obtain ⟨hpending, hfirst⟩ := EventQueue.pop_ok hpop hinf
    exact ⟨⟨queue, tested, world, nodes, vtimeTick, hpending, htick, hdispatch, rfl⟩, hfirst⟩

/-- Handing something to the node at a position, whatever the front end is. -/
theorem handOver_cases {Front : Type} {handle : Node → M Front Node} {nodes nodes' : List Node}
    {target : Option Nat} {w w' : World Front}
    (h : (do
      let i ← MonadExcept.ofExcept (access target)
      let node ← MonadExcept.ofExcept (access nodes[i]?)
      let node ← handle node
      return nodes.set i node : M Front (List Node)) w = .ok (nodes', w')) :
    ∃ i node node', target = some i ∧ nodes[i]? = some node ∧
      handle node w = .ok (node', w') ∧ nodes' = nodes.set i node' := by
  cases target with
  | none => cases h
  | some i =>
    cases hnode : nodes[i]? with
    | none =>
      simp only [access, MonadExcept.ofExcept, pure_bind, hnode] at h
      cases h
    | some node =>
      simp only [access, MonadExcept.ofExcept, pure_bind, hnode] at h
      obtain ⟨⟨node', w''⟩, hhandle, h⟩ := bind_eq_ok h
      cases h
      exact ⟨i, node, node', rfl, hnode, hhandle, rfl⟩

/-- Dispatching hands the event to the node it points to. -/
theorem simDispatch_cases {nodes nodes' : List Node} {e : QueueEvent} {w w' : World SimFront}
    (h : simDispatch ops nodes e w = .ok (nodes', w')) :
    ∃ i node node', e.node = some i ∧ nodes[i]? = some node ∧
      simHandle ops node e w = .ok (node', w') ∧ nodes' = nodes.set i node' :=
  handOver_cases h

/-- A property that node code keeps whatever it sends is kept by handling any event. -/
theorem KeptTimer.keeps_simHandle {I : World SimFront → Prop} {node : Node} {e : QueueEvent}
    (h : KeptTimer simCallback node.id e.vtime (fun _ => True) (fun _ => True) I) :
    Keeps I (fun _ => True) (simHandle ops node e) := by
  intro w hw
  unfold simHandle
  cases e.packet with
  | some ptr =>
    dsimp only
    rw [wp_bind]
    refine wp_nodeReceive_read trivial fun packet hp => ?_
    refine (h.wp_nodeReceive (fun _ _ => trivial) hp (fun _ _ _ => trivial)
      (fun _ _ => trivial) (fun _ => ⟨trivial, fun _ => trivial⟩) hw).imp fun _ w' hw' => ?_
    rw [wp_bind]
    exact h.toKept.keeps_packetFree ptr w' hw'
  | none => exact h.keptNewTimer.keeps_nodeTimer (fun _ _ => trivial) e.extra w hw

/-- A node after an event: it received a packet, or a timer was due. -/
inductive Handled {Front : Type} (w : World Front) (node : Node) (e : QueueEvent) (node' : Node) :
    Prop where
  /-- The event carries a packet. -/
  | received {ptr : Nat} {packet : Packet} (carries : e.packet = some ptr)
    (found : w.heap[ptr]? = some packet) (after : Received node e.vtime packet node')
  /-- The event is a timer. -/
  | timed (timer : e.packet = none) (after : Timed node e.vtime node')

theorem Handled.id_eq {Front : Type} {w : World Front} {node node' : Node} {e : QueueEvent}
    (h : Handled w node e node') : node'.id = node.id := by
  cases h with
  | received _ _ hreceived => exact hreceived.id_eq
  | timed _ htimed => exact htimed.id_eq

/-- What handling an event leaves of the node. -/
theorem wp_simHandle_node {node : Node} {e : QueueEvent} {w : World SimFront} :
    Wp (simHandle ops node e) (fun node' _ => Handled w node e node') (fun _ => True) w := by
  unfold simHandle
  cases hptr : e.packet with
  | some ptr =>
    dsimp only
    rw [wp_bind]
    refine wp_nodeReceive_read trivial fun packet hp => ?_
    refine (wp_nodeReceive_node hp).imp fun node' w' hreceived => ?_
    rw [wp_bind]
    exact (wp_true _ _).imp fun _ _ _ => .received hptr hp hreceived
  | none => exact wp_nodeTimer_node.imp fun node' _ htimed => .timed hptr htimed

/-- Dispatching stops where the node does, or at a node that is not there. -/
theorem simDispatch_error {nodes : List Node} {e : QueueEvent} {w : World SimFront} {err : Abort}
    (h : simDispatch ops nodes e w = .error err) :
    err = .outOfBounds ∨ ∃ i node, e.node = some i ∧ nodes[i]? = some node ∧
      simHandle ops node e w = .error err := by
  unfold simDispatch at h
  cases hi : e.node with
  | none =>
    rw [hi] at h
    exact Or.inl (Except.error.inj h).symm
  | some i =>
    rw [hi] at h
    cases hnode : nodes[i]? with
    | none =>
      simp only [access, MonadExcept.ofExcept, pure_bind, hnode] at h
      exact Or.inl (Except.error.inj h).symm
    | some node =>
      simp only [access, MonadExcept.ofExcept, pure_bind, hnode] at h
      rcases bind_eq_error h with h | ⟨_, -, h⟩
      · exact Or.inr ⟨i, node, rfl, hnode, h⟩
      · cases h

theorem routeTestLoop_error {nodes : List Node} {node2 hop : NodeId} {loc : Loc} {maxstrat : Int}
    {turns i : Nat} {e : Abort}
    (h : routeTestLoop nodes node2 loc maxstrat turns i hop = .error e) : e = .outOfBounds := by
  induction turns generalizing i hop with
  | zero => cases h
  | succ turns ih =>
    rw [routeTestLoop] at h
    rcases bind_eq_error h with h | ⟨node, -, h⟩
    · exact access_eq_error h
    · dsimp only at h
      split at h
      · cases h
      · split at h
        · cases h
        · exact ih h

theorem simRouteTestOne_error {nodes : List Node} {node1 node2 : NodeId} {maxstrat : Int}
    {e : Abort} (h : simRouteTestOne nodes node1 node2 maxstrat = .error e) :
    e = .outOfBounds := by
  rcases bind_eq_error h with h | ⟨dest, -, h⟩
  · exact access_eq_error h
  · exact routeTestLoop_error h

/-- The route tests that are only printed stop at a node that is not there. -/
theorem simRouteTest_error {nodes : List Node} {e : Abort} (h : simRouteTest nodes = .error e) :
    e = .outOfBounds := by
  refine error_of_mapM (p := fun e => e = .outOfBounds) (fun i e he => ?_) h
  rcases bind_eq_error he with he | ⟨_, -, he⟩
  · exact simRouteTestOne_error he
  rcases bind_eq_error he with he | ⟨_, -, he⟩
  · exact simRouteTestOne_error he
  rcases bind_eq_error he with he | ⟨_, -, he⟩
  · exact simRouteTestOne_error he
  rcases bind_eq_error he with he | ⟨_, -, he⟩
  · exact simRouteTestOne_error he
  · cases he

/-- A property that the route test of every node keeps is kept by the tick. -/
theorem keeps_simTick {I : World SimFront → Prop} {bad : Abort → Prop} {nodes : List Node}
    {vtime vtimeTick : VTime} (hbounds : bad .outOfBounds)
    (h : ∀ node ∈ nodes, Keeps I bad (nodeRouteTest simCallback node vtimeTick)) :
    Keeps I bad (simTick nodes vtime vtimeTick) := by
  unfold simTick
  refine Keeps.ite (fun _ => ?_) fun _ => keeps_pure _
  refine Keeps.bind (fun w hw => wp_ofExcept (fun _ _ => hw) fun e he => ?_) fun _ => ?_
  · exact simRouteTest_error he ▸ hbounds
  exact (keeps_forM h).bind fun _ => keeps_pure _

end Turn

/-! ## The start -/

/-- The start reads the topology and initialises a node for every identity up to the largest. -/
theorem simStart_cases {args : SimArgs} {tape : Nat → Fin randRange} {uninit : Nat → List UInt8}
    {s : Sim} (h : simStart args tape uninit = .ok s) :
    ∃ topo dims nodes world, topoRead args.links = .ok topo ∧ simDims args.dims = .ok dims ∧
      simNodes args.nodeOpts (topo.maxId.toNat + 1)
        (simBlank topo dims (simEschaton args.timeout) tape uninit) =
        .ok (nodes, world) ∧
      s = { world, nodes, vtimeTick := vtimeZero } := by
  unfold simStart at h
  obtain ⟨topo, htopo, h⟩ := bind_eq_ok h
  obtain ⟨dims, hdims, h⟩ := bind_eq_ok h
  obtain ⟨⟨nodes, world⟩, hnodes, h⟩ := bind_eq_ok h
  cases h
  exact ⟨topo, dims, nodes, world, htopo, hdims, hnodes, rfl⟩

end OldRadio.Second
