import OldRadio.Second.TopoLinks
import OldRadio.Second.Traced

/-!
# What a broadcast does, exactly

A packet passed to `sim_callback` becomes one event for each link of the sender,
due at the arrival that the next outcome of `rand` gives, and the events that
are due before `Eschaton` are added to the queue. A new packet is held once for
each of them when the sender has let go of it.
-/

namespace OldRadio.Second

open Library
open Node (M)

/-- What decides when a packet arrives where: the outcomes of `rand`, `Topo` and `Eschaton`. -/
structure Medium where
  /-- What successive calls of `rand` return. -/
  tape : Nat → Fin randRange
  /-- The network. -/
  topo : Topo
  /-- Events due at this time or later are dropped. -/
  eschaton : VTime

/-- The events that a packet becomes at the ends of some links, from a number of outcomes on. -/
def packetEvents (tape : Nat → Fin randRange) (vtime : VTime) (ptr length : Nat)
    (links : List TopoEntry) (drawn : Nat) : List QueueEvent :=
  (links.zipIdx drawn).map fun l => packetEvent l.1.dst vtime ptr none length (tape l.2).val

/-- The events that a packet of `length` bytes becomes. -/
def Medium.events (m : Medium) (b : Broadcast) (length : Nat) : List QueueEvent :=
  packetEvents m.tape b.vtime b.ptr length (topoIter m.topo b.node) b.drawn

/-- The events that are added to the queue. -/
def Medium.arrivals (m : Medium) (b : Broadcast) (length : Nat) : List QueueEvent :=
  (m.events b length).filter fun e => e.vtime < m.eschaton

theorem packetEvents_cons (tape : Nat → Fin randRange) (vtime : VTime) (ptr length : Nat)
    (t : TopoEntry) (links : List TopoEntry) (drawn : Nat) :
    packetEvents tape vtime ptr length (t :: links) drawn =
      packetEvent t.dst vtime ptr none length (tape drawn).val ::
        packetEvents tape vtime ptr length links (drawn + 1) := by
  rw [packetEvents, List.zipIdx_cons, List.map_cons, packetEvents]

theorem packet_of_mem_packetEvents {tape : Nat → Fin randRange} {vtime : VTime} {ptr length : Nat}
    {links : List TopoEntry} {drawn : Nat} {e : QueueEvent}
    (h : e ∈ packetEvents tape vtime ptr length links drawn) : e.packet = some ptr := by
  obtain ⟨l, -, rfl⟩ := List.mem_map.mp h
  rfl

theorem Medium.packet_of_mem_arrivals {m : Medium} {b : Broadcast} {length : Nat} {e : QueueEvent}
    (h : e ∈ m.arrivals b length) : e.packet = some b.ptr :=
  packet_of_mem_packetEvents (List.mem_of_mem_filter h)

theorem Medium.vtime_of_mem_arrivals {m : Medium} {b : Broadcast} {length : Nat} {e : QueueEvent}
    (h : e ∈ m.arrivals b length) : e.vtime < m.eschaton :=
  of_decide_eq_true (List.mem_filter.mp h).2

/-! ## Arrivals -/

/-- When a packet of `length` bytes arrives at a node: the sender's links are served in order, with
one outcome of `rand` each. -/
def Medium.arrival (m : Medium) (b : Broadcast) (length : Nat) (dst : NodeId) : VTime :=
  b.vtime.after (propDelay length
    (m.tape (b.drawn + ((topoIter m.topo b.node).map TopoEntry.dst).idxOf dst)).val)

private theorem countP_packetEvents (tape : Nat → Fin randRange) (vtime eschaton : VTime)
    (ptr length : Nat) {links : List TopoEntry} (drawn : Nat)
    (hnodup : (links.map TopoEntry.dst).Nodup) (dst : NodeId) :
    (packetEvents tape vtime ptr length links drawn).countP
        (fun e => e.node = some dst.toNat ∧ e.vtime < eschaton) =
      if dst ∈ links.map TopoEntry.dst ∧
        vtime.after (propDelay length
          (tape (drawn + (links.map TopoEntry.dst).idxOf dst)).val) < eschaton
      then 1 else 0 := by
  induction links generalizing drawn with
  | nil => rfl
  | cons t links ih =>
    rw [List.map_cons, List.nodup_cons] at hnodup
    obtain ⟨hnot, hnodup⟩ := hnodup
    rw [packetEvents_cons, List.countP_cons, ih (drawn + 1) hnodup, List.map_cons]
    by_cases hdst : t.dst = dst
    · subst hdst
      rw [List.idxOf_cons_self, if_neg fun h => hnot h.1]
      simp [packetEvent]
    · have hnat : ¬ t.dst.toNat = dst.toNat := fun h => hdst (UInt16.toNat_inj.mp h)
      rw [List.idxOf_cons_ne _ hdst, Nat.add_assoc, Nat.add_comm 1]
      simp [packetEvent, hnat, Ne.symm hdst]

/-- A packet arrives once at every end of a link of its sender where it arrives before `Eschaton`,
and nowhere else. -/
theorem Medium.countP_arrivals (m : Medium) (hvalid : TopoValid m.topo) (b : Broadcast)
    (length : Nat) (dst : NodeId) [Decidable (m.topo.Link b.node dst)] :
    (m.arrivals b length).countP (fun e => e.node = some dst.toNat) =
      if m.topo.Link b.node dst ∧ m.arrival b length dst < m.eschaton then 1 else 0 := by
  obtain ⟨hnodup, hlinks⟩ := hvalid.iter b.node
  have hcount := countP_packetEvents m.tape b.vtime m.eschaton b.ptr length b.drawn hnodup dst
  rw [Medium.arrivals, List.countP_filter]
  simp only [Bool.decide_and] at hcount
  rw [Medium.events, hcount]
  exact if_congr (and_congr_left' (hlinks dst)) rfl rfl

/-! ## Sending a new packet -/

section Sending

variable {id : NodeId} {vtime : VTime} {bad : Abort → Prop}

/-- Passing a packet to the ends of some links. -/
theorem wp_deliverAll (hfreed : bad .packetFreed) (hfull : bad .queueFull) {ptr : Nat}
    {links : List TopoEntry} {w : World SimFront} {p : Packet} (hp : w.heap[ptr]? = some p)
    {news : List QueueEvent}
    (hnews : news = (packetEvents w.tape vtime ptr p.data.length links w.drawn).filter
      fun e => e.vtime < w.front.eschaton) :
    Wp (forM links (simDeliver vtime ptr none)) (fun _ w' => ∃ queue : EventQueue,
      queue.pending = ↑news + w.pending ∧
      w' = ((w.skip links.length).poke ptr
        { p with refcount := p.refcount + news.length }).setQueue queue) bad w := by
  induction links generalizing w p news with
  | nil =>
    subst hnews
    exact ⟨w.front.queue, (Multiset.zero_add _).symm, (World.poke_self hp).symm⟩
  | cons t links ih =>
    rw [List.forM_cons, wp_bind]
    rw [packetEvents_cons] at hnews
    refine wp_simDeliver hp hfreed hfull (fun hge => ?_) fun hlt queue hqueue => ?_
    · have hdue : ¬ (packetEvent t.dst vtime ptr none p.data.length (w.tape w.drawn).val).vtime <
          w.front.eschaton := fun hlt => (UInt64.not_lt.mpr hge) hlt
      rw [List.filter_cons_of_neg (by simpa using hdue)] at hnews
      refine (ih (w := w.skip 1) hp hnews).imp fun _ w' hw' => ?_
      obtain ⟨queue, hpending, rfl⟩ := hw'
      refine ⟨queue, hpending, ?_⟩
      rw [World.skip_skip, List.length_cons, Nat.add_comm]
    · have hdue : (packetEvent t.dst vtime ptr none p.data.length (w.tape w.drawn).val).vtime <
          w.front.eschaton := hlt
      rw [List.filter_cons_of_pos (by simpa using hdue)] at hnews
      subst hnews
      refine (ih (w := ((w.skip 1).poke ptr { p with refcount := p.refcount + 1 }).setQueue queue)
        (heap_poke hp) rfl).imp fun _ w' hw' => ?_
      obtain ⟨queue', hpending, rfl⟩ := hw'
      refine ⟨queue', ?_, ?_⟩
      · rw [hpending, World.setQueue_pending, hqueue, ← Multiset.cons_coe, Multiset.cons_add,
          Multiset.add_cons]
        rfl
      · simp only [World.skip, World.poke, World.setQueue, World.setFront, List.set_set,
          List.length_cons, Nat.add_assoc, Nat.add_comm 1]
        rfl

/-- `sim_callback` with a packet: the events that are due before `Eschaton` are added to the queue,
and each holds the packet. -/
theorem wp_simCallback_packet (hfreed : bad .packetFreed) (hfull : bad .queueFull) {ptr : Nat}
    {w : World SimFront} {p : Packet} (hp : w.heap[ptr]? = some p) {news : List QueueEvent}
    (hnews : news = (packetEvents w.tape vtime ptr p.data.length (topoIter w.front.topo id)
      w.drawn).filter fun e => e.vtime < w.front.eschaton) :
    Wp (simCallback id vtime (some ptr) none) (fun _ w' => ∃ queue : EventQueue,
      queue.pending = ↑news + w.pending ∧
      w' = ((w.skip (topoIter w.front.topo id).length).poke ptr
        { p with refcount := p.refcount + news.length }).setQueue queue) bad w := by
  rw [simCallback, wp_bind, wp_get]
  exact wp_deliverAll hfreed hfull hp hnews

/-- What decides when a packet arrives where. -/
def World.medium (w : World Traced) : Medium :=
  { tape := w.tape, topo := w.front.sim.topo, eschaton := w.front.sim.eschaton }

/-- A new packet sent from here. -/
def World.nextSend (w : World Traced) (id : NodeId) (vtime : VTime) : Broadcast :=
  { node := id, vtime, ptr := w.heap.length, drawn := w.drawn, origin := w.front.log.origin }

/-- The world after a new packet is sent and let go of. -/
def World.sent (w : World Traced) (b : Broadcast) (data : List UInt8) (queue : EventQueue) :
    World Traced where
  tape := w.tape
  drawn := w.drawn + (topoIter w.front.sim.topo b.node).length
  heap := w.heap ++ [{ refcount := (w.medium.arrivals b data.length).length, data }]
  dims := w.dims
  uninit := w.uninit
  front :=
    { sim := { w.front.sim with queue }
      log := { w.front.log with sends := w.front.log.sends ++ [b] } }

@[simp] theorem World.sent_pending (w : World Traced) (b : Broadcast) (data : List UInt8)
    (queue : EventQueue) : (w.sent b data queue).front.pending = queue.pending := rfl

/-- Sending a new packet writes it down, and leaves its arrivals in the queue, each holding it. -/
theorem wp_sendNew_traced (hfreed : bad .packetFreed) (hfull : bad .queueFull) {w : World Traced}
    {data : List UInt8} (hne : data ≠ []) :
    Wp (sendNew tracedCallback id vtime data) (fun _ w' => ∃ queue : EventQueue,
      queue.pending = ↑(w.medium.arrivals (w.nextSend id vtime) data.length) + w.front.pending ∧
      w' = w.sent (w.nextSend id vtime) data queue) bad w := by
  let b := w.nextSend id vtime
  let news := w.medium.arrivals b data.length
  let written : World Traced :=
    (w.push { refcount := 1, data }).setFront
      { w.front with log := { w.front.log with sends := w.front.log.sends ++ [b] } }
  have hsend : Wp (simCallback id vtime (some w.heap.length) none) (fun _ w' =>
      ∃ queue : EventQueue, queue.pending = ↑news + w.front.pending ∧
        w' = (((w.mapFront Logged.sim).skip (topoIter w.front.sim.topo id).length).push
          { refcount := news.length + 1, data }).setQueue queue) bad
      (written.mapFront Logged.sim) := by
    refine (wp_simCallback_packet hfreed hfull (w.push_heap _) rfl).imp fun _ w' hw' => ?_
    obtain ⟨queue, hpending, rfl⟩ := hw'
    refine ⟨queue, hpending, ?_⟩
    rw [Nat.add_comm]
    exact congrArg (World.setQueue · queue) (World.push_poke
      ((w.mapFront Logged.sim).skip (topoIter w.front.sim.topo id).length)
      { refcount := 1, data } { refcount := news.length + 1, data })
  rw [sendNew, wp_bind, wp_packetAlloc hne, wp_bind, tracedCallback, recordSend, wp_bind, wp_bind,
    wp_get, wp_writeLog, wp_besideLog]
  refine hsend.imp fun _ w' hw' => ?_
  obtain ⟨queue, hpending, rfl⟩ := hw'
  let before : World Traced := (w.skip (topoIter w.front.sim.topo id).length).setFront
    { sim := { w.front.sim with queue }
      log := { w.front.log with sends := w.front.log.sends ++ [b] } }
  exact (wp_packetFree_push before data news.length).mpr ⟨queue, hpending, rfl⟩

/-- A timer request writes nothing down, and adds at most a timer event. -/
theorem wp_tracedCallback_timer (hfull : bad .queueFull) {extra : Option Nat} {w : World Traced} :
    Wp (tracedCallback id vtime none extra) (fun _ w' =>
      ∃ (queue : EventQueue) (new : Multiset QueueEvent), queue.pending = new + w.front.pending ∧
        (∀ e ∈ new, e.packet = none ∧ e.vtime < w.medium.eschaton) ∧
        w' = (w.skip 1).setFront (w.front.setQueue queue)) bad w := by
  rw [tracedCallback, recordSend, wp_bind, wp_pure, wp_besideLog]
  refine wp_simCallback_timer hfull (fun _ => ?_) fun hlt queue hqueue => ?_
  · exact ⟨w.front.sim.queue, 0, (Multiset.zero_add _).symm,
      fun e he => absurd he (Multiset.notMem_zero e), rfl⟩
  · refine ⟨queue, {_}, hqueue, fun e he => ?_, rfl⟩
    rw [Multiset.mem_singleton.mp he]
    exact ⟨rfl, hlt⟩

end Sending

end OldRadio.Second
