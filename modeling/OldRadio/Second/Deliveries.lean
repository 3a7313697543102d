import OldRadio.Second.Broadcasts

/-!
# Every broadcast arrives once

In every state of the main loop the events that carry a packet, handled ones and
those in the queue, are the arrivals of its one broadcast, and the packet is held
once for each event in the queue. So when the queue is empty each packet has
been received once at every out-neighbour of its sender where it arrives before
`Eschaton`, and no packet is left.
-/

namespace OldRadio.Second

open Library
open Node (M)

/-- What nodes send: beacons and data packets. -/
def Known (data : List UInt8) : Prop :=
  data.headD 0 = packetTypeBeacon ∨
    ∃ d : PacketData, d.packetType = packetTypeData ∧ data = packetDataLayout.encode d

theorem Known.not_flood {data : List UInt8} (h : Known data) :
    data.headD 0 ≠ packetTypeFlood := by
  rcases h with h | ⟨d, htype, rfl⟩
  · rw [h]
    decide
  · rw [headD_encode, htype]
    decide

/-- An event carries a packet. -/
def Carries (ptr : Nat) (e : QueueEvent) : Prop := e.packet = some ptr

instance (ptr : Nat) : DecidablePred (Carries ptr) := fun e =>
  inferInstanceAs (Decidable (e.packet = some ptr))

/-- The books about one packet: where its events are, and how often it is held. -/
structure Account (m : Medium) (done held pending : Multiset QueueEvent) (ptr : Nat) (b : Broadcast)
    (p : Packet) : Prop where
  /-- The broadcasts are in the order of their packets. -/
  ptr_eq : b.ptr = ptr
  /-- The packet is held once for each event that is not handled yet. -/
  refcount_eq : p.refcount = (held + pending).countP (Carries ptr)
  /-- The events that carry it are its arrivals. -/
  events_eq : (done + (held + pending)).filter (Carries ptr) = ↑(m.arrivals b p.data.length)

/-- The books about all packets, with the events `done` handled and `held` being handled. -/
structure Accounts (m : Medium) (done held : Multiset QueueEvent) (w : World Traced) : Prop where
  /-- The medium does not change. -/
  medium_eq : w.medium = m
  /-- Every packet is sent once. -/
  length_eq : w.front.log.sends.length = w.heap.length
  /-- Only beacons and data packets are sent. -/
  known : ∀ p ∈ w.heap, Known p.data
  /-- Nothing to come is due at `Eschaton` or later. -/
  due : ∀ e ∈ w.front.pending, e.vtime < m.eschaton
  /-- Events carry packets that exist. -/
  valid : ∀ e ∈ done + (held + w.front.pending), ∀ ptr, e.packet = some ptr → ptr < w.heap.length
  /-- The books about each packet. -/
  account : ∀ (ptr : Nat) (b : Broadcast) (p : Packet), w.front.log.sends[ptr]? = some b →
    w.heap[ptr]? = some p → Account m done held w.front.pending ptr b p

section Keeps

variable {m : Medium} {done held : Multiset QueueEvent} {w : World Traced} {id : NodeId}
  {vtime : VTime} {bad : Abort → Prop}

/-- New events that do not carry the packet keep its account. -/
theorem Account.add {pending new : Multiset QueueEvent} {ptr : Nat} {b : Broadcast} {p : Packet}
    (h : Account m done held pending ptr b p) (hnew : ∀ e ∈ new, ¬ Carries ptr e) :
    Account m done held (new + pending) ptr b p := by
  refine ⟨h.ptr_eq, ?_, ?_⟩
  · rw [add_left_comm, Multiset.countP_add, Multiset.countP_eq_zero.mpr hnew,
      Nat.zero_add]
    exact h.refcount_eq
  · rw [add_left_comm held, add_left_comm done, Multiset.filter_add,
      Multiset.filter_eq_nil.mpr hnew, Multiset.zero_add]
    exact h.events_eq

/-- Timer requests keep the books. -/
theorem Accounts.timer (h : Accounts m done held w) {queue : EventQueue}
    {new : Multiset QueueEvent} (hqueue : queue.pending = new + w.front.pending)
    (hnew : ∀ e ∈ new, e.packet = none ∧ e.vtime < w.medium.eschaton) :
    Accounts m done held ((w.skip 1).setFront (w.front.setQueue queue)) := by
  have hpending : (w.front.setQueue queue).pending = new + w.front.pending := hqueue
  refine ⟨h.medium_eq, h.length_eq, h.known, ?_, ?_, ?_⟩
  · intro e he
    rw [World.setFront_front, hpending] at he
    rcases Multiset.mem_add.mp he with he | he
    · exact h.medium_eq ▸ (hnew e he).2
    · exact h.due e he
  · intro e he ptr hptr
    rw [World.setFront_front, hpending, add_left_comm held,
      add_left_comm done] at he
    rcases Multiset.mem_add.mp he with he | he
    · rw [(hnew e he).1] at hptr
      cases hptr
    · exact h.valid e he ptr hptr
  · intro ptr b p hb hp
    rw [World.setFront_front, hpending]
    refine (h.account ptr b p hb hp).add fun e he hcarries => ?_
    rw [Carries, (hnew e he).1] at hcarries
    cases hcarries

/-- Sending a new packet opens its account and keeps the others. -/
theorem Accounts.sent (h : Accounts m done held w) {data : List UInt8} (hdata : Known data)
    {queue : EventQueue}
    (hqueue : queue.pending =
      ↑(w.medium.arrivals (w.nextSend id vtime) data.length) + w.front.pending) :
    Accounts m done held (w.sent (w.nextSend id vtime) data queue) := by
  obtain ⟨rfl, hlength, hknown, hdue, hvalid, haccount⟩ := h
  have hnone : ∀ e ∈ done + (held + w.front.pending), ¬ Carries w.heap.length e :=
    fun e he hcarries => Nat.lt_irrefl _ (hvalid e he _ hcarries)
  refine ⟨rfl, ?_, ?_, ?_, ?_, ?_⟩
  · change (w.front.log.sends ++ [_]).length = (w.heap ++ [_]).length
    rw [List.length_append, List.length_append, hlength]
    rfl
  · intro p hp
    rcases List.mem_append.mp hp with hp | hp
    · exact hknown p hp
    · rw [List.mem_singleton.mp hp]
      exact hdata
  · intro e he
    rw [World.sent_pending, hqueue] at he
    rcases Multiset.mem_add.mp he with he | he
    · exact Medium.vtime_of_mem_arrivals (Multiset.mem_coe.mp he)
    · exact hdue e he
  · intro e he ptr hptr
    rw [World.sent_pending, hqueue, add_left_comm held,
      add_left_comm done] at he
    change ptr < (w.heap ++ [_]).length
    rw [List.length_append]
    rcases Multiset.mem_add.mp he with he | he
    · rw [Medium.packet_of_mem_arrivals (Multiset.mem_coe.mp he)] at hptr
      cases hptr
      exact Nat.lt_succ_self _
    · exact Nat.lt_succ_of_lt (hvalid e he ptr hptr)
  · intro ptr b p hb hp
    rw [World.sent_pending, hqueue]
    change (w.front.log.sends ++ [w.nextSend id vtime])[ptr]? = some b at hb
    change (w.heap ++ [_])[ptr]? = some p at hp
    rcases Nat.lt_trichotomy ptr w.heap.length with hlt | rfl | hgt
    · rw [List.getElem?_append_left (by rwa [hlength])] at hb
      rw [List.getElem?_append_left hlt] at hp
      refine (haccount ptr b p hb hp).add fun e he hcarries => ?_
      have hptr := Medium.packet_of_mem_arrivals (Multiset.mem_coe.mp he)
      rw [hcarries] at hptr
      cases hptr
      exact Nat.lt_irrefl _ hlt
    · rw [← hlength, List.getElem?_concat_length] at hb
      rw [List.getElem?_concat_length] at hp
      cases hb
      cases hp
      have hall : ∀ e ∈ (↑(w.medium.arrivals (w.nextSend id vtime) data.length) :
          Multiset QueueEvent), Carries w.heap.length e := fun e he =>
        Medium.packet_of_mem_arrivals (Multiset.mem_coe.mp he)
      refine ⟨rfl, ?_, ?_⟩
      · rw [add_left_comm, Multiset.countP_add, Multiset.countP_eq_card.mpr hall,
          Multiset.countP_eq_zero.mpr fun e he =>
            hnone e (Multiset.mem_add.mpr (Or.inr he))]
        rfl
      · rw [add_left_comm held, add_left_comm done, Multiset.filter_add,
          Multiset.filter_eq_self.mpr hall, Multiset.filter_eq_nil.mpr hnone, Multiset.add_zero]
    · rw [List.getElem?_eq_none] at hp
      · cases hp
      · rw [List.length_append, List.length_singleton]
        exact hgt

/-- The books do not say what is running. -/
theorem Accounts.startedBy (h : Accounts m done held w) (origin : Option RouteTest) :
    Accounts m done held (w.setFront { w.front with log := w.front.log.startedBy origin }) :=
  ⟨h.medium_eq, h.length_eq, h.known, h.due, h.valid, h.account⟩

/-- Everything a node does keeps the books. -/
theorem accounts_keptNewTimer :
    KeptNewTimer tracedCallback id vtime Known (fun _ => True) (Accounts m done held) where
  skip _ h := ⟨h.medium_eq, h.length_eq, h.known, h.due, h.valid, h.account⟩
  sendNew data hne hdata w h := by
    refine (wp_sendNew_traced trivial trivial hne).imp fun _ w' hw' => ?_
    obtain ⟨queue, hpending, rfl⟩ := hw'
    exact h.sent hdata hpending
  timer w delay extra _ h := by
    refine (wp_tracedCallback_timer trivial).imp fun _ w' hw' => ?_
    obtain ⟨queue, new, hpending, hnew, rfl⟩ := hw'
    exact h.timer hpending hnew

/-- Taking an event out of the queue to handle it keeps the books. -/
theorem Accounts.hold {e : QueueEvent} {queue : EventQueue} (h : Accounts m done 0 w)
    (hqueue : w.front.pending = e ::ₘ queue.pending) :
    Accounts m done {e} (w.setFront (w.front.setQueue queue)) := by
  have hheld : {e} + queue.pending = 0 + w.front.pending := by
    rw [Multiset.singleton_add, Multiset.zero_add, hqueue]
  refine ⟨h.medium_eq, h.length_eq, h.known, fun f hf => h.due f ?_, fun f hf => h.valid f ?_, ?_⟩
  · rw [hqueue]
    exact Multiset.mem_cons_of_mem hf
  · rwa [← hheld]
  · intro ptr b p hb hp
    obtain ⟨hptr, href, hevents⟩ := h.account ptr b p hb hp
    rw [← hheld] at href hevents
    exact ⟨hptr, href, hevents⟩

private theorem handled_eq (done pending : Multiset QueueEvent) (e : QueueEvent) :
    e ::ₘ done + (0 + pending) = done + ({e} + pending) := by
  rw [Multiset.zero_add, Multiset.singleton_add, Multiset.add_cons, Multiset.cons_add]

/-- An event that is handled takes a holder away from the packet it carries. -/
theorem Account.handled {pending : Multiset QueueEvent} {ptr : Nat} {b : Broadcast} {p : Packet}
    {e : QueueEvent} (h : Account m done {e} pending ptr b p) :
    Account m (e ::ₘ done) 0 pending ptr b
      { p with refcount := if Carries ptr e then p.refcount - 1 else p.refcount } := by
  obtain ⟨hptr, href, hevents⟩ := h
  refine ⟨hptr, ?_, ?_⟩
  · rw [Multiset.singleton_add] at href
    rw [Multiset.zero_add, href]
    split
    · rename_i hcarries
      rw [Multiset.countP_cons_of_pos _ hcarries, Nat.add_sub_cancel]
    · rename_i hnot
      rw [Multiset.countP_cons_of_neg _ hnot]
  · rw [handled_eq]
    exact hevents

/-- An event that carries a packet is handled once the packet is let go of. -/
theorem Accounts.free {e : QueueEvent} {ptr : Nat} {p : Packet} (h : Accounts m done {e} w)
    (he : Carries ptr e) (hp : w.heap[ptr]? = some p) :
    Accounts m (e ::ₘ done) 0 (w.poke ptr { p with refcount := p.refcount - 1 }) := by
  refine ⟨h.medium_eq, ?_, ?_, h.due, ?_, ?_⟩
  · rw [World.poke, List.length_set]
    exact h.length_eq
  · intro p' hp'
    rcases List.mem_or_eq_of_mem_set hp' with hmem | rfl
    · exact h.known p' hmem
    · exact h.known p (List.mem_of_getElem? hp)
  · intro f hf i hi
    rw [World.poke, List.length_set]
    exact h.valid f (handled_eq done _ e ▸ hf) i hi
  · intro i b p' hb hp'
    rcases eq_or_ne i ptr with rfl | hne
    · rw [heap_poke hp] at hp'
      cases hp'
      have hhandled := (h.account i b p hb hp).handled
      rwa [if_pos he] at hhandled
    · rw [World.poke, List.getElem?_set_ne hne.symm] at hp'
      have hnot : ¬ Carries i e := fun hi => hne (Option.some.inj (hi.symm.trans he))
      have hhandled := (h.account i b p' hb hp').handled
      rwa [if_neg hnot] at hhandled

/-- An event without a packet is handled as it is. -/
theorem Accounts.drop {e : QueueEvent} (h : Accounts m done {e} w) (he : e.packet = none) :
    Accounts m (e ::ₘ done) 0 w := by
  refine ⟨h.medium_eq, h.length_eq, h.known, h.due, handled_eq done _ e ▸ h.valid, ?_⟩
  intro ptr b p hb hp
  have hnot : ¬ Carries ptr e := fun hcarries => by cases he.symm.trans hcarries
  have hhandled := (h.account ptr b p hb hp).handled
  rwa [if_neg hnot] at hhandled

end Keeps

/-! ## Every run -/

section Runs

variable {F : Type} {ops : FloatOps F} {m : Medium} {done held : Multiset QueueEvent}
  {w w' : World Traced}

theorem Known.beacon (node : Node) : Known (beaconData node) := Or.inl rfl

theorem Known.data {data : PacketData} (h : data.packetType = packetTypeData) :
    Known (packetDataLayout.encode data) := Or.inr ⟨data, h, rfl⟩

/-- Route tests keep the books. -/
theorem Accounts.tick {tick : Nat} {nodes : List Node} {vtime vtimeTick vtimeTick' : VTime}
    (h : Accounts m done held w)
    (htick : tracer.tick tick nodes vtime vtimeTick w = .ok (vtimeTick', w')) :
    Accounts m done held w' := by
  have hkeeps : Keeps (Accounts m done held) (fun _ => True)
      (tracer.tick tick nodes vtime vtimeTick) := by
    refine Logger.keeps_tick (fun _ _ => trivial) (fun _ _ _ hw => hw.startedBy _) fun _ _ => ?_
    exact accounts_keptNewTimer.toKeptNew.keeps_nodeRouteTest fun _ => Known.data
  exact (hkeeps w h).of_ok htick

/-- Handing an event to its node handles it. -/
theorem wp_tracedHandle_accounts {node : Node} {e : QueueEvent} (h : Accounts m done {e} w) :
    Wp (tracer.handle ops node e) (fun _ w' => Accounts m (e ::ₘ done) 0 w') (fun _ => True) w := by
  have hkept : KeptNewTimer tracedCallback node.id e.vtime Known (fun _ => True)
      (Accounts m done {e}) := accounts_keptNewTimer
  cases hptr : e.packet with
  | some ptr =>
    rw [Logger.wp_handle_packet hptr]
    refine wp_nodeReceive_read trivial fun p hp => ?_
    refine (hkept.wp_nodeReceive (fun _ _ => Known.data) hp (fun _ => trivial)
      (fun _ _ _ => trivial) (fun _ _ _ _ _ => trivial) (fun _ _ => trivial)
      (fun hflood => absurd hflood (h.known p (List.mem_of_getElem? hp)).not_flood)
      (h.startedBy _)).imp fun node' w' hw' => ?_
    rw [packetFree, wp_bind]
    exact wp_packetRead trivial fun p' hp' => hw'.free hptr hp'
  | none =>
    rw [Logger.wp_handle_timer hptr]
    refine (hkept.keeps_nodeTimer (fun node' _ => Known.beacon node') e.extra _
      (h.startedBy _)).imp fun _ w' hw' => ?_
    exact hw'.drop hptr

/-- A turn of the main loop handles one event. -/
theorem Accounts.step {t t' : TracedSim} {e : QueueEvent} (h : Accounts m done 0 t.world)
    (hstep : TracedStep ops t e t') : Accounts m (e ::ₘ done) 0 t'.world := by
  obtain ⟨queue, tested, world, vtimeTick, i, node, node', hpending, htick, -, -, hhandle,
    rfl⟩ := hstep.turn.ran
  exact (wp_tracedHandle_accounts ((h.hold hpending).tick htick)).of_ok hhandle

/-- The books are empty before any node is initialised. -/
theorem accounts_blank (topo : Topo) (dims : Nat) (eschaton : VTime) (tape : Nat → Fin randRange)
    (uninit : Nat → List UInt8) :
    Accounts { tape, topo, eschaton } 0 0
      (loggedWorld .blank (simBlank topo dims eschaton tape uninit)) := by
  have hzero : ∀ e : QueueEvent, e ∉ (0 : Multiset QueueEvent) := Multiset.notMem_zero
  refine ⟨rfl, rfl, fun p hp => absurd hp List.not_mem_nil, fun e he => absurd he (hzero e),
    fun e he => ?_, fun ptr b p hb => by cases hb⟩
  rw [Multiset.zero_add, Multiset.zero_add] at he
  exact absurd he (hzero e)

/-- The books at the start, on the medium of the arguments. -/
theorem accounts_start {args : SimArgs} {tape : Nat → Fin randRange} {uninit : Nat → List UInt8}
    {t : TracedSim} (h : tracer.start .blank args tape uninit = .ok t) :
    ∃ topo, topoRead args.links = .ok topo ∧
      Accounts { tape, topo, eschaton := simEschaton args.timeout } 0 0 t.world := by
  obtain ⟨topo, dims, nodes, world, htopo, hnodes, rfl⟩ := Logger.start_cases h
  exact ⟨topo, htopo, ((Logger.wp_nodes (fun _ => accounts_keptNewTimer) args.nodeOpts _
    (accounts_blank topo dims _ tape uninit)).of_ok hnodes).2⟩

/-- The books are right in every state of every run. -/
theorem TracedRun.accounts {args : SimArgs} {tape : Nat → Fin randRange}
    {uninit : Nat → List UInt8} {events : List QueueEvent} {t : TracedSim}
    (h : TracedRun ops args tape uninit events t) :
    ∃ topo, topoRead args.links = .ok topo ∧
      Accounts { tape, topo, eschaton := simEschaton args.timeout } ↑events 0 t.world := by
  obtain ⟨t₀, hstart, hrun⟩ := h
  obtain ⟨topo, htopo, hzero⟩ := accounts_start hstart
  refine ⟨topo, htopo, hrun.keeps_labels
    (I := fun events t => Accounts _ (↑events : Multiset QueueEvent) 0 t.world) ?_ hzero⟩
  intro done t e t' hdone hstep
  rw [← Multiset.coe_add, add_comm, Multiset.coe_singleton, Multiset.singleton_add]
  exact hdone.step hstep

/-- Nothing to come is due at `Eschaton` or later, in every state of every run. -/
theorem SimReachable.due {args : SimArgs} {tape : Nat → Fin randRange}
    {uninit : Nat → List UInt8} {s : Sim} (h : SimReachable ops args tape uninit s) :
    ∀ e ∈ s.world.pending, e.vtime < simEschaton args.timeout := by
  obtain ⟨s₀, events, hstart, hrun⟩ := h
  obtain ⟨t, htraced, rfl⟩ := simRun_traced ops hstart hrun
  obtain ⟨_, -, haccounts⟩ := htraced.accounts
  exact haccounts.due

/-- When nothing is to come no packet is held, in every state of every run. -/
theorem SimReachable.freed {args : SimArgs} {tape : Nat → Fin randRange}
    {uninit : Nat → List UInt8} {s : Sim} (h : SimReachable ops args tape uninit s)
    (hzero : s.world.pending = 0) : ∀ p ∈ s.world.heap, p.refcount = 0 := by
  obtain ⟨s₀, events, hstart, hrun⟩ := h
  obtain ⟨t, htraced, rfl⟩ := simRun_traced ops hstart hrun
  obtain ⟨_, -, haccounts⟩ := htraced.accounts
  intro p hp
  obtain ⟨ptr, hptr⟩ := List.getElem?_of_mem hp
  have hlt := (List.getElem?_eq_some_iff.mp hptr).1
  have hb := List.getElem?_eq_getElem (haccounts.length_eq.symm ▸ hlt)
  have hrefcount := (haccounts.account ptr _ p hb hptr).refcount_eq
  change t.world.front.pending = 0 at hzero
  rwa [Multiset.zero_add, hzero, Multiset.countP_zero] at hrefcount

end Runs

/-! ## Deliveries -/

/-- A link of the topology file between two nodes. -/
def SimArgs.Hears (args : SimArgs) (a b : NodeId) : Prop :=
  a ≠ b ∧ ∃ l ∈ args.links, l.src = a ∧ l.dst = b

/-- Number of events that hand a packet to node `i`. -/
def receptions (ptr i : Nat) (events : List QueueEvent) : Nat :=
  events.countP fun e => e.packet = some ptr ∧ e.node = some i

/-- A broadcast is received once at every out-neighbour of its sender where it arrives before
`Eschaton`, and at no other node. -/
structure Delivered (args : SimArgs) (m : Medium) (b : Broadcast) (length : Nat)
    (events : List QueueEvent) : Prop where
  /-- Each of these receives it once. -/
  once : ∀ dst, args.Hears b.node dst → m.arrival b length dst < m.eschaton →
    receptions b.ptr dst.toNat events = 1
  /-- No other node receives it. -/
  only : ∀ i, receptions b.ptr i events ≠ 0 →
    ∃ dst, dst.toNat = i ∧ args.Hears b.node dst ∧ m.arrival b length dst < m.eschaton

/-- When the arrivals of a broadcast are the handled events that carry it, it is delivered. -/
theorem Medium.delivered {args : SimArgs} {m : Medium} (htopo : topoRead args.links = .ok m.topo)
    {b : Broadcast} {length : Nat} {events : List QueueEvent}
    (h : (↑events : Multiset QueueEvent).filter (Carries b.ptr) = ↑(m.arrivals b length)) :
    Delivered args m b length events := by
  classical
  obtain ⟨hvalid, hlinks⟩ := topoRead_valid htopo
  have hcount : ∀ i, receptions b.ptr i events =
      (m.arrivals b length).countP fun e => e.node = some i := fun i => by
    have hfilter := congrArg (Multiset.countP fun e => e.node = some i) h
    rw [Multiset.countP_filter, Multiset.coe_countP, Multiset.coe_countP] at hfilter
    rw [receptions, ← hfilter]
    exact List.countP_congr fun e _ => by
      rw [decide_eq_true_iff, decide_eq_true_iff, Carries]
      exact and_comm
  refine ⟨fun dst hhears harrival => ?_, fun i hi => ?_⟩
  · rw [hcount, m.countP_arrivals hvalid]
    exact if_pos ⟨(hlinks b.node dst).mpr hhears, harrival⟩
  · rw [hcount] at hi
    obtain ⟨e, he, hnode⟩ := List.countP_pos_iff.mp (Nat.pos_of_ne_zero hi)
    obtain ⟨l, -, rfl⟩ := List.mem_map.mp (List.mem_of_mem_filter he)
    have hdst : l.1.dst.toNat = i := Option.some.inj (of_decide_eq_true hnode)
    refine ⟨l.1.dst, hdst, ?_⟩
    rw [← hdst, m.countP_arrivals hvalid] at hi
    obtain ⟨hlink, harrival⟩ := ite_ne_right_iff.mp hi |>.1
    exact ⟨(hlinks b.node l.1.dst).mp hlink, harrival⟩

variable {F : Type} {ops : FloatOps F}

/-- A queue whose events are due before `Eschaton` has run empty when the loop ends. -/
theorem pending_of_simStep_none {s : Sim} {eschaton : VTime}
    (hdue : ∀ e ∈ s.world.pending, e.vtime < eschaton) (h : simStep ops s = .ok none) :
    s.world.pending = 0 := by
  rcases s.world.front.queue.pop_cases with ⟨hzero, -⟩ | ⟨e, queue, hpop, hpending, -⟩
  · exact hzero
  · unfold simStep at h
    rw [hpop, ok_bind] at h
    dsimp only at h
    split at h
    · rename_i hinf
      have hlt := hdue e (by
        rw [World.pending, hpending]
        exact Multiset.mem_cons_self e _)
      rw [hinf, UInt64.lt_iff_toNat_lt] at hlt
      have hmax := eschaton.toNat_lt
      have : vtimeInf.toNat = 2 ^ 64 - 1 := rfl
      omega
    · obtain ⟨_, -, h⟩ := bind_eq_ok h
      obtain ⟨_, -, h⟩ := bind_eq_ok h
      cases h

/-- In every state of every run a packet is held once for each event in the queue that carries it.
When the queue has run empty no packet is left, and each packet that was passed to the callback has
been received once at every out-neighbour of its sender where it arrives before `Eschaton`, and
nowhere else. -/
theorem broadcasts_delivered (ops : FloatOps F) {args : SimArgs} {tape : Nat → Fin randRange}
    {uninit : Nat → List UInt8} {s₀ s : Sim} {events : List QueueEvent}
    (hstart : simStart args tape uninit = .ok s₀) (hrun : Run (SimStep ops) s₀ events s) :
    ∃ topo t, topoRead args.links = .ok topo ∧ TracedRun ops args tape uninit events t ∧
      t.erase = s ∧
      t.log.sends.map Broadcast.ptr = List.range s.world.heap.length ∧
      (∀ (ptr : Nat) (p : Packet), s.world.heap[ptr]? = some p →
        p.refcount = s.world.pending.countP (Carries ptr)) ∧
      (simStep ops s = .ok none → (∀ p ∈ s.world.heap, p.refcount = 0) ∧
        ∀ b ∈ t.log.sends, ∃ p, s.world.heap[b.ptr]? = some p ∧
          Delivered args { tape, topo, eschaton := simEschaton args.timeout } b p.data.length
            events) := by
  obtain ⟨t, htraced, rfl⟩ := simRun_traced ops hstart hrun
  obtain ⟨topo, htopo, haccounts⟩ := htraced.accounts
  have hlength : t.log.sends.length = t.world.heap.length := haccounts.length_eq
  have hrefcount : ∀ (ptr : Nat) (p : Packet), t.world.heap[ptr]? = some p →
      p.refcount = t.world.front.pending.countP (Carries ptr) := fun ptr p hp => by
    have hlt := (List.getElem?_eq_some_iff.mp hp).1
    have hb := List.getElem?_eq_getElem (hlength ▸ hlt)
    have haccount := haccounts.account ptr _ p hb hp
    rw [haccount.refcount_eq, Multiset.zero_add]
  refine ⟨topo, t, htopo, htraced, rfl, ?_, hrefcount, fun hend => ?_⟩
  · have hsizes : (t.log.sends.map Broadcast.ptr).length =
        (List.range t.world.heap.length).length := by
      rw [List.length_map, List.length_range, hlength]
    refine List.ext_getElem hsizes fun ptr hb hp => ?_
    rw [List.length_map] at hb
    rw [List.getElem_map, List.getElem_range]
    have hp' := List.getElem?_eq_getElem (hlength ▸ hb)
    exact (haccounts.account ptr _ _ (List.getElem?_eq_getElem hb) hp').ptr_eq
  · have hzero : t.world.front.pending = 0 :=
      pending_of_simStep_none (s := t.erase) haccounts.due hend
    refine ⟨fun p hp => ?_, fun b hb => ?_⟩
    · obtain ⟨ptr, hptr⟩ := List.getElem?_of_mem hp
      rw [hrefcount ptr p hptr, hzero, Multiset.countP_zero]
    · obtain ⟨ptr, hptr⟩ := List.getElem?_of_mem hb
      have hlt := (List.getElem?_eq_some_iff.mp hptr).1
      obtain ⟨p, hp⟩ : ∃ p, t.world.heap[ptr]? = some p :=
        ⟨_, List.getElem?_eq_getElem (hlength ▸ hlt)⟩
      obtain ⟨rfl, -, hevents⟩ := haccounts.account ptr b p hptr hp
      rw [hzero, Multiset.add_zero, Multiset.add_zero] at hevents
      exact ⟨p, hp, Medium.delivered htopo hevents⟩

/-- The loop ends here. -/
def simEnds (ops : FloatOps F) (s : Sim) : Bool :=
  match simStep ops s with
  | .ok none => true
  | _ => false

theorem simStep_of_simEnds {s : Sim} (h : simEnds ops s = true) : simStep ops s = .ok none := by
  unfold simEnds at h
  split at h
  · assumption
  · cases h

/-- The two nodes for three seconds. -/
def threeSeconds : SimArgs := { twoNodes with timeout := some 3 }

theorem broadcasts_delivered_threeSeconds :
    ∃ s₀ s events, simStart threeSeconds (fun _ => 10) (fun _ => []) = .ok s₀ ∧
      Run (SimStep integerOps) s₀ events s ∧ events.length = 21 ∧ s.world.heap.length = 11 ∧
      (∀ p ∈ s.world.heap, p.refcount = 0) ∧
      ∃ topo t, TracedRun integerOps threeSeconds (fun _ => 10) (fun _ => []) events t ∧
        ∀ b ∈ t.log.sends, ∃ p, s.world.heap[b.ptr]? = some p ∧
          Delivered threeSeconds
            { tape := fun _ => 10, topo, eschaton := simEschaton threeSeconds.timeout } b
            p.data.length events := by
  have hrun : (do
      let s ← simStart threeSeconds (fun _ => 10) fun _ => []
      let r ← simRun integerOps (fun _ _ => true) 30 s
      return (r.1.length, r.2.world.heap.length, simEnds integerOps r.2)) =
        (Except.ok (21, 11, true) : Except Abort _) := by decide +kernel
  obtain ⟨s₀, hstart, hrun⟩ := bind_eq_ok hrun
  obtain ⟨⟨events, s⟩, hevents, hrun⟩ := bind_eq_ok hrun
  obtain ⟨hlength, hrun⟩ := Prod.mk.inj (Except.ok.inj hrun)
  obtain ⟨hheap, hends⟩ := Prod.mk.inj hrun
  have hsteps : Run (SimStep integerOps) s₀ events s :=
    (simRun_run integerOps hevents).mono fun _ _ _ h => h.1
  obtain ⟨topo, t, -, htraced, -, -, -, hend⟩ := broadcasts_delivered integerOps hstart hsteps
  obtain ⟨hfreed, hdelivered⟩ := hend (simStep_of_simEnds hends)
  exact ⟨s₀, s, events, hstart, hsteps, hlength, hheap, hfreed, topo, t, htraced, hdelivered⟩

end OldRadio.Second
