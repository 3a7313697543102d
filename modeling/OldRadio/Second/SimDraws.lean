import OldRadio.Second.SimEffects

/-!
# Which random outcomes the simulator uses

Sending a packet uses one outcome of `rand` for each link of the sender, in
order, and a timer request uses one. So the times of the events that a turn of
the main loop makes are functions of the state before it: the arrivals of the
route tests come from the outcomes next in line, and what an event asks for
comes from those behind them.
-/

namespace OldRadio.Second

open Library
open Node (M)

/-- The world `w'` is `w` after `n` more calls of `rand`, with perhaps more events and packets. -/
structure After (n : Nat) (w w' : World SimFront) : Prop where
  /-- The outcomes are fixed. -/
  tape_eq : w'.tape = w.tape
  /-- The outcomes used. -/
  drawn_eq : w'.drawn = w.drawn + n
  /-- `Loc_dims` stays. -/
  dims_eq : w'.dims = w.dims
  /-- `Topo` stays. -/
  topo_eq : w'.front.topo = w.front.topo
  /-- `Eschaton` stays. -/
  eschaton_eq : w'.front.eschaton = w.front.eschaton
  /-- Packets keep their bytes. -/
  heap : ∀ (ptr : Nat) (p : Packet), w.heap[ptr]? = some p →
    ∃ p' : Packet, w'.heap[ptr]? = some p' ∧ p'.data = p.data

namespace After

variable {m n : Nat} {w w₁ w₂ : World SimFront}

theorem trans (h₁ : After m w w₁) (h₂ : After n w₁ w₂) : After (m + n) w w₂ where
  tape_eq := h₂.tape_eq.trans h₁.tape_eq
  drawn_eq := by rw [h₂.drawn_eq, h₁.drawn_eq, Nat.add_assoc]
  dims_eq := h₂.dims_eq.trans h₁.dims_eq
  topo_eq := h₂.topo_eq.trans h₁.topo_eq
  eschaton_eq := h₂.eschaton_eq.trans h₁.eschaton_eq
  heap ptr p hp := by
    obtain ⟨p₁, hp₁, hdata₁⟩ := h₁.heap ptr p hp
    obtain ⟨p₂, hp₂, hdata₂⟩ := h₂.heap ptr p₁ hp₁
    exact ⟨p₂, hp₂, hdata₂.trans hdata₁⟩

theorem rand (h : After n w w₁) (k : Nat) : w₁.rand k = w.rand (n + k) := by
  rw [World.rand, World.rand, h.tape_eq, h.drawn_eq, Nat.add_assoc]

theorem skip (w : World SimFront) (n : Nat) : After n w (w.skip n) :=
  ⟨rfl, rfl, rfl, rfl, rfl, fun _ p hp => ⟨p, hp, rfl⟩⟩

theorem refl (w : World SimFront) : After 0 w w := skip w 0

theorem push (w : World SimFront) (p : Packet) : After 0 w (w.push p) :=
  ⟨rfl, rfl, rfl, rfl, rfl, fun _ p' hp' => ⟨p', heap_push hp' p, rfl⟩⟩

theorem poke {ptr : Nat} {p : Packet} (hp : w.heap[ptr]? = some p) (n : Nat) :
    After 0 w (w.poke ptr { p with refcount := n }) :=
  ⟨rfl, rfl, rfl, rfl, rfl, fun _ _ => exists_heap_poke hp⟩

theorem setQueue (w : World SimFront) (queue : EventQueue) : After 0 w (w.setQueue queue) :=
  ⟨rfl, rfl, rfl, rfl, rfl, fun _ p hp => ⟨p, hp, rfl⟩⟩

end After

/-- The world `w'` is `w` after packets of `length` bytes were sent at `vtime` over `n` links: each
new event is a packet event due at the arrival for one of the outcomes used. -/
structure Sent (vtime : VTime) (length n : Nat) (w w' : World SimFront) : Prop where
  /-- Nothing else changed. -/
  after : After n w w'
  /-- The new events. -/
  added : ∃ new : Multiset QueueEvent, w'.pending = new + w.pending ∧ ∀ e ∈ new,
    e.packet ≠ none ∧ e.vtime < w.front.eschaton ∧
      ∃ k < n, e.vtime = vtime.after (propDelay length (w.rand k))

namespace Sent

variable {vtime : VTime} {length m n : Nat} {w w₁ w₂ : World SimFront}

theorem of_same (h : After n w w₁) (hpending : w₁.pending = w.pending) :
    Sent vtime length n w w₁ :=
  ⟨h, 0, by rw [hpending, Multiset.zero_add], fun _ he => absurd he (Multiset.notMem_zero _)⟩

theorem trans (h₁ : Sent vtime length m w w₁) (h₂ : Sent vtime length n w₁ w₂) :
    Sent vtime length (m + n) w w₂ := by
  obtain ⟨new₁, hp₁, hnew₁⟩ := h₁.added
  obtain ⟨new₂, hp₂, hnew₂⟩ := h₂.added
  refine ⟨h₁.after.trans h₂.after, new₂ + new₁, by rw [hp₂, hp₁, Multiset.add_assoc], ?_⟩
  intro e he
  rcases Multiset.mem_add.mp he with he | he
  · obtain ⟨hpacket, hlt, k, hk, hv⟩ := hnew₂ e he
    rw [h₁.after.eschaton_eq] at hlt
    rw [h₁.after.rand] at hv
    exact ⟨hpacket, hlt, m + k, by omega, hv⟩
  · obtain ⟨hpacket, hlt, k, hk, hv⟩ := hnew₁ e he
    exact ⟨hpacket, hlt, k, by omega, hv⟩

end Sent

section Specs

variable {vtime : VTime} {w : World SimFront} {id : NodeId}

/-- A delivery uses one outcome. -/
theorem wp_simDeliver_sent {ptr : Nat} {t : TopoEntry} {packet : Packet}
    (hp : w.heap[ptr]? = some packet) :
    Wp (simDeliver vtime ptr none t) (fun _ => Sent vtime packet.data.length 1 w)
      (fun _ => True) w := by
  refine wp_simDeliver hp trivial trivial (fun _ => .of_same (.skip w 1) rfl)
    fun hlt queue hqueue => ?_
  refine ⟨((After.skip w 1).trans (.poke (w := w.skip 1) hp _)).trans (.setQueue _ _), {_}, hqueue,
    fun e he => ?_⟩
  rw [Multiset.mem_singleton.mp he]
  exact ⟨by simp [packetEvent], hlt, 0, Nat.one_pos, rfl⟩

/-- Sending a packet uses one outcome for each link of the sender. -/
theorem wp_simCallback_sent {ptr : Nat} {packet : Packet} (hp : w.heap[ptr]? = some packet) :
    Wp (simCallback id vtime (some ptr) none)
      (fun _ => Sent vtime packet.data.length (topoIter w.front.topo id).length w)
      (fun _ => True) w := by
  rw [simCallback, wp_bind, wp_get]
  generalize topoIter w.front.topo id = links
  let rest : List TopoEntry → World SimFront → Prop := fun ts w' => ∃ n,
    n + ts.length = links.length ∧ Sent vtime packet.data.length n w w'
  have hstep : ∀ t ts w', rest (t :: ts) w' →
      Wp (simDeliver vtime ptr none t) (fun _ => rest ts) (fun _ => True) w' := by
    rintro t ts w' ⟨n, hn, hsent⟩
    obtain ⟨p', hp', hdata⟩ := hsent.after.heap ptr packet hp
    refine (wp_simDeliver_sent hp').imp fun _ w'' h => ?_
    rw [hdata] at h
    exact ⟨n + 1, by rw [List.length_cons] at hn; omega, hsent.trans h⟩
  refine (wp_forM rest hstep ⟨0, Nat.zero_add _, .of_same (.refl w) rfl⟩).imp
    fun _ w' h => ?_
  obtain ⟨n, hn, hsent⟩ := h
  rw [List.length_nil, Nat.add_zero] at hn
  rwa [← hn]

theorem wp_packetFree_after {ptr : Nat} :
    Wp (packetFree ptr) (fun _ w' => After 0 w w' ∧ w'.pending = w.pending) (fun _ => True) w := by
  rw [packetFree, wp_bind]
  exact wp_packetRead trivial fun p hp => ⟨.poke hp _, rfl⟩

/-- Allocating a packet, sending it and freeing it. -/
theorem wp_sendNew_sent {data : List UInt8} (hne : data ≠ []) :
    Wp (sendNew simCallback id vtime data)
      (fun _ => Sent vtime data.length (topoIter w.front.topo id).length w) (fun _ => True) w := by
  rw [sendNew, wp_bind, wp_packetAlloc hne, wp_bind]
  refine (wp_simCallback_sent (w.push_heap _)).imp fun _ w' hw' => ?_
  refine wp_packetFree_after.imp fun _ w'' hw'' => ?_
  obtain ⟨hafter, hpending⟩ := hw''
  have hpush : Sent vtime data.length 0 w (w.push { refcount := 1, data }) :=
    .of_same (.push w _) rfl
  have := (hpush.trans hw').trans (.of_same hafter hpending)
  rwa [Nat.zero_add, Nat.add_zero] at this

/-- A timer request uses one outcome. -/
theorem wp_simCallback_timer_after {extra : Option Nat} :
    Wp (simCallback id vtime none extra)
      (fun _ w' => After 1 w w' ∧
        ((timerEvent id vtime extra (w.rand 0)).vtime < w.front.eschaton ∧
            w'.pending = timerEvent id vtime extra (w.rand 0) ::ₘ w.pending ∨
          w.front.eschaton ≤ (timerEvent id vtime extra (w.rand 0)).vtime ∧
            w'.pending = w.pending)) (fun _ => True) w :=
  wp_simCallback_timer trivial (fun hge => ⟨.skip w 1, Or.inr ⟨hge, rfl⟩⟩)
    fun hlt queue hqueue =>
      ⟨(After.skip w 1).trans (.setQueue _ queue), Or.inl ⟨hlt, hqueue⟩⟩

end Specs

/-! ## The route tests of a tick -/

/-- The hop that a node's route test chooses. -/
def testHop (node : Node) : NodeId := nodeRouteMfr node 0 locZero 1

/-- Number of outcomes of `rand` that the route tests of some nodes use. -/
def routeDraws (topo : Topo) (nodes : List Node) : Nat :=
  (nodes.map fun node =>
    if testHop node = nodeIdInvalid then 0 else (topoIter topo node.id).length).sum

/-- Number of outcomes that the route tests use before an event due at `vtime`. -/
def tickDraws (s : Sim) (vtime : VTime) : Nat :=
  if s.vtimeTick < vtime then routeDraws s.world.front.topo s.nodes else 0

theorem wp_nodeRouteTest_sent {node : Node} {vtime : VTime} {w : World SimFront} :
    Wp (nodeRouteTest simCallback node vtime)
      (fun _ => Sent vtime packetDataLayout.size (routeDraws w.front.topo [node]) w)
      (fun _ => True) w := by
  rw [nodeRouteTest, nodeForwardData]
  dsimp only
  have hdraws : routeDraws w.front.topo [node] = if testHop node = nodeIdInvalid then 0
      else (topoIter w.front.topo node.id).length := by
    rw [routeDraws, List.map_singleton, List.sum_singleton]
  rw [hdraws, testHop]
  split
  · exact .of_same (.refl w) rfl
  · have hsend : Wp (nodeSendData simCallback node vtime
        { packetType := packetTypeData, src := node.id, dst := 0
          hop := nodeRouteMfr node 0 locZero 1, srcloc := node.virtloc, dstloc := locZero
          ttl := nodeTtlMax - 1, vtime }) _ _ w :=
      wp_sendNew_sent (packetDataLayout_encode_ne_nil _)
    rwa [packetDataLayout.length_encode] at hsend

theorem routeDraws_cons (topo : Topo) (node : Node) (nodes : List Node) :
    routeDraws topo (node :: nodes) = routeDraws topo [node] + routeDraws topo nodes := by
  simp [routeDraws]

/-- The route tests send data packets, node after node. -/
theorem wp_simTick_sent {nodes : List Node} {vtime vtimeTick : VTime} {w : World SimFront} :
    Wp (simTick nodes vtime vtimeTick)
      (fun _ => Sent vtimeTick packetDataLayout.size
        (if vtimeTick < vtime then routeDraws w.front.topo nodes else 0) w)
      (fun _ => True) w := by
  unfold simTick
  split
  · rename_i hlt
    let rest : List Node → World SimFront → Prop := fun todo w' => ∃ n,
      n + routeDraws w.front.topo todo = routeDraws w.front.topo nodes ∧
        Sent vtimeTick packetDataLayout.size n w w'
    have hstep : ∀ node todo w', rest (node :: todo) w' →
        Wp (nodeRouteTest simCallback node vtimeTick) (fun _ => rest todo) (fun _ => True) w' := by
      rintro node todo w' ⟨n, hn, hsent⟩
      refine wp_nodeRouteTest_sent.imp fun _ w'' h => ?_
      rw [hsent.after.topo_eq] at h
      rw [routeDraws_cons] at hn
      exact ⟨_, by omega, hsent.trans h⟩
    rw [wp_bind]
    refine wp_ofExcept (fun _ _ => ?_) fun _ _ => trivial
    rw [wp_bind]
    refine (wp_forM rest hstep ⟨0, Nat.zero_add _, .of_same (.refl w) rfl⟩).imp
      fun _ w' h => ?_
    obtain ⟨n, hn, hsent⟩ := h
    rw [show routeDraws w.front.topo [] = 0 from rfl, Nat.add_zero] at hn
    rwa [wp_pure, ← hn]
  · exact .of_same (.refl w) rfl

/-- What a turn of the main loop leaves before it hands its event over. -/
theorem tick_sent {s : Sim} {vtime vtimeTick : VTime} {queue : EventQueue} {tested : World SimFront}
    (h : simTick s.nodes vtime s.vtimeTick (s.world.setQueue queue) = .ok (vtimeTick, tested)) :
    Sent s.vtimeTick packetDataLayout.size (tickDraws s vtime) (s.world.setQueue queue) tested :=
  wp_simTick_sent.of_ok h

end OldRadio.Second
