import OldRadio.Second.Deliveries

/-!
# Copies of data packets

Every data packet comes from one call of `node_route_test`. What is left of the
packet of a call are the events in the queue that take a copy to the hop it
names, and the events that handed one to its destination there. Sending a packet
leaves at most one more, since only one of its receivers is the hop; timers and
beacons leave none, and each call of a tick is the first with its node and tick.
-/

namespace OldRadio.Second

open Library

/-- `vtime_tick` after a number of ticks. -/
def tickTime : Nat → VTime
  | 0 => vtimeZero
  | k + 1 => (tickTime k).after vtimeSeconds

/-- The data packet that an event carries, and the route test it comes from. -/
def World.dataOf (w : World Traced) (e : QueueEvent) : Option (RouteTest × PacketData) := do
  let ptr ← e.packet
  let p ← w.heap[ptr]?
  let b ← w.front.log.sends[ptr]?
  let test ← b.origin
  return (test, packetDataLayout.decode p.data)

/-- An event takes a data packet of a route test to the hop the packet names. -/
def AtHop (w : World Traced) (test : RouteTest) (e : QueueEvent) : Prop :=
  ∃ d, w.dataOf e = some (test, d) ∧ e.node = some d.hop.toNat

/-- The hop is the destination too: the node reports the packet as received. -/
def Reported (w : World Traced) (test : RouteTest) (e : QueueEvent) : Prop :=
  ∃ d, w.dataOf e = some (test, d) ∧ e.node = some d.hop.toNat ∧ d.dst = d.hop

private theorem any_dataOf_iff {o : Option (RouteTest × PacketData)} {test : RouteTest}
    {p : PacketData → Prop} [DecidablePred p] :
    o.any (fun r => r.1 = test ∧ p r.2) = true ↔ ∃ d, o = some (test, d) ∧ p d := by
  rcases o with - | ⟨test', d⟩
  · simp
  · rw [Option.any_some, decide_eq_true_iff]
    constructor
    · rintro ⟨rfl, hp⟩
      exact ⟨d, rfl, hp⟩
    · rintro ⟨d', heq, hp⟩
      cases heq
      exact ⟨rfl, hp⟩

instance (w : World Traced) (test : RouteTest) : DecidablePred (AtHop w test) := fun _ =>
  decidable_of_iff _ any_dataOf_iff

instance (w : World Traced) (test : RouteTest) : DecidablePred (Reported w test) := fun _ =>
  decidable_of_iff _ any_dataOf_iff

/-- What is left of a route test's packet: the events among `waiting` that take it to its hop, and
the events among `done` that were reported. -/
def copies (w : World Traced) (done waiting : Multiset QueueEvent) (test : RouteTest) : Nat :=
  waiting.countP (AtHop w test) + done.countP (Reported w test)

/-- The origin of a packet tells what it holds. -/
def Labelled (ticks : Nat) (data : List UInt8) : Option RouteTest → Prop
  | none => data.headD 0 = packetTypeBeacon
  | some test => test.tick < ticks ∧ ∃ d : PacketData, d.packetType = packetTypeData ∧
      d.src = test.node ∧ d.vtime = tickTime test.tick ∧ data = packetDataLayout.encode d

/-- At most one copy is left of the packet of every route test. -/
structure Single (ticks : Nat) (done waiting : Multiset QueueEvent) (w : World Traced) :
    Prop where
  /-- Origins are right. -/
  labelled : ∀ (ptr : Nat) (b : Broadcast) (p : Packet), w.front.log.sends[ptr]? = some b →
    w.heap[ptr]? = some p → Labelled ticks p.data b.origin
  /-- One copy at most. -/
  copies_le : ∀ test, copies w done waiting test ≤ 1

/-! ## Copies -/

section Copies

variable {ticks : Nat} {m : Medium} {done held waiting : Multiset QueueEvent}
  {w w' : World Traced} {e : QueueEvent} {test : RouteTest}

theorem Reported.atHop (h : Reported w test e) : AtHop w test e := by
  obtain ⟨d, hd, hnode, -⟩ := h
  exact ⟨d, hd, hnode⟩

theorem dataOf_eq {ptr : Nat} {p : Packet} {b : Broadcast} (he : e.packet = some ptr)
    (hp : w.heap[ptr]? = some p) (hb : w.front.log.sends[ptr]? = some b) :
    w.dataOf e = b.origin.map fun test => (test, packetDataLayout.decode p.data) := by
  simp only [World.dataOf, he, hp, hb, Option.bind_eq_bind, Option.bind_some]
  cases b.origin <;> rfl

theorem copies_cons (w : World Traced) (done waiting : Multiset QueueEvent) (e : QueueEvent)
    (test : RouteTest) :
    copies w done (e ::ₘ waiting) test =
      copies w done waiting test + if AtHop w test e then 1 else 0 := by
  rw [copies, copies, Multiset.countP_cons, Nat.add_right_comm]

theorem copies_done (w : World Traced) (done waiting : Multiset QueueEvent) (e : QueueEvent)
    (test : RouteTest) :
    copies w (e ::ₘ done) waiting test =
      copies w done waiting test + if Reported w test e then 1 else 0 := by
  rw [copies, copies, Multiset.countP_cons, Nat.add_assoc]

/-- What an event carries is in the packet it points to. -/
theorem dataOf_cases {d : PacketData} (h : w.dataOf e = some (test, d)) :
    ∃ ptr p b, e.packet = some ptr ∧ w.heap[ptr]? = some p ∧ w.front.log.sends[ptr]? = some b ∧
      b.origin = some test ∧ d = packetDataLayout.decode p.data := by
  unfold World.dataOf at h
  obtain ⟨ptr, hptr, h⟩ := Option.bind_eq_some_iff.mp h
  obtain ⟨p, hp, h⟩ := Option.bind_eq_some_iff.mp h
  obtain ⟨b, hb, h⟩ := Option.bind_eq_some_iff.mp h
  obtain ⟨test', horigin, h⟩ := Option.bind_eq_some_iff.mp h
  cases h
  exact ⟨ptr, p, b, hptr, hp, hb, horigin, rfl⟩

/-- Copies are counted by what the packets hold and where they come from. -/
theorem copies_congr (h : ∀ e ∈ done + waiting, w'.dataOf e = w.dataOf e) :
    copies w' done waiting = copies w done waiting := by
  funext test
  have hwaiting : waiting.countP (AtHop w' test) = waiting.countP (AtHop w test) :=
    Multiset.countP_congr rfl fun e he => by
      rw [AtHop, AtHop, h e (Multiset.mem_add.mpr (Or.inr he))]
  have hdone : done.countP (Reported w' test) = done.countP (Reported w test) :=
    Multiset.countP_congr rfl fun e he => by
      rw [Reported, Reported, h e (Multiset.mem_add.mpr (Or.inl he))]
  rw [copies, copies, hwaiting, hdone]

/-- The world keeps its packets and what is written down. -/
structure Grows (w w' : World Traced) : Prop where
  /-- Packets keep their bytes. -/
  heap : ∀ (ptr : Nat) (p : Packet), w.heap[ptr]? = some p →
    ∃ p' : Packet, w'.heap[ptr]? = some p' ∧ p'.data = p.data
  /-- Nothing is struck out. -/
  sends : ∀ (ptr : Nat) (b : Broadcast), w.front.log.sends[ptr]? = some b →
    w'.front.log.sends[ptr]? = some b

/-- What an event carries does not change. -/
theorem Accounts.dataOf_grows (h : Accounts m done held w) (hgrows : Grows w w')
    (he : e ∈ done + (held + w.front.pending)) : w'.dataOf e = w.dataOf e := by
  cases hptr : e.packet with
  | none => simp [World.dataOf, hptr]
  | some ptr =>
    have hlt := h.valid e he ptr hptr
    have hp := List.getElem?_eq_getElem hlt
    have hb := List.getElem?_eq_getElem (h.length_eq ▸ hlt)
    obtain ⟨p', hp', hdata⟩ := hgrows.heap ptr _ hp
    rw [dataOf_eq hptr hp hb, dataOf_eq hptr hp' (hgrows.sends ptr _ hb), hdata]

/-- An event that is taken out of the queue leaves no more copies. -/
theorem Single.take (h : Single ticks done (e ::ₘ waiting) w) : Single ticks done waiting w := by
  refine ⟨h.labelled, fun test => ?_⟩
  have hle := h.copies_le test
  rw [copies_cons] at hle
  omega

/-- An event that is not reported may be forgotten. -/
theorem Single.pass (h : Single ticks done waiting w) (he : ∀ test, ¬ Reported w test e) :
    Single ticks (e ::ₘ done) waiting w := by
  refine ⟨h.labelled, fun test => ?_⟩
  rw [copies_done, if_neg (he test)]
  exact h.copies_le test

/-- An event that takes a packet to a hop that is its destination is reported. -/
theorem Single.report (h : Single ticks done (e ::ₘ waiting) w)
    (he : ∀ test, AtHop w test e → Reported w test e) : Single ticks (e ::ₘ done) waiting w := by
  refine ⟨h.labelled, fun test => ?_⟩
  have hle := h.copies_le test
  rw [copies_cons] at hle
  rw [copies_done, if_congr ⟨Reported.atHop, he test⟩ rfl rfl]
  exact hle

/-- The holders of a packet do not change what events carry. -/
theorem dataOf_poke {ptr n : Nat} {p : Packet} (hp : w.heap[ptr]? = some p) :
    (w.poke ptr { p with refcount := n }).dataOf e = w.dataOf e := by
  cases hptr : e.packet with
  | none => simp [World.dataOf, hptr]
  | some i =>
    rcases eq_or_ne i ptr with rfl | hne
    · simp only [World.dataOf, hptr, heap_poke hp, hp, Option.bind_eq_bind, Option.bind_some]
      rfl
    · simp [World.dataOf, hptr, World.poke, List.getElem?_set_ne hne.symm]

theorem Single.poke (h : Single ticks done waiting w) {ptr n : Nat} {p : Packet}
    (hp : w.heap[ptr]? = some p) :
    Single ticks done waiting (w.poke ptr { p with refcount := n }) := by
  refine ⟨fun i b p' hb hp' => ?_, fun test => ?_⟩
  · obtain ⟨q, hq, hdata⟩ := exists_of_heap_poke hp hp'
    rw [← hdata]
    exact h.labelled i b q hb hq
  · rw [copies_congr fun e _ => dataOf_poke hp]
    exact h.copies_le test

end Copies

/-! ## Sending -/

section Sending

variable {ticks : Nat} {m : Medium} {done held past waiting : Multiset QueueEvent}
  {w w' : World Traced} {id : NodeId} {vtime : VTime}

theorem grows_sent (b : Broadcast) (data : List UInt8) (queue : EventQueue) :
    Grows w (w.sent b data queue) where
  heap ptr p hp := ⟨p, by
    rw [World.sent, List.getElem?_append_left (List.getElem?_eq_some_iff.mp hp).1, hp], rfl⟩
  sends ptr b' hb := by
    rw [World.sent, List.getElem?_append_left (List.getElem?_eq_some_iff.mp hb).1, hb]

/-- A new packet adds at most one copy, and only to the route test it comes from. -/
theorem Accounts.copies_sent (h : Accounts m done held w) (hvalid : TopoValid m.topo)
    (hle : past + waiting ≤ done + held) {data : List UInt8} {queue : EventQueue}
    (hqueue : queue.pending =
      ↑(w.medium.arrivals (w.nextSend id vtime) data.length) + w.front.pending)
    (test : RouteTest) :
    copies (w.sent (w.nextSend id vtime) data queue) past (waiting + queue.pending) test ≤
      copies w past (waiting + w.front.pending) test +
        if w.front.log.origin = some test then 1 else 0 := by
  have hold : copies (w.sent (w.nextSend id vtime) data queue) past
      (waiting + w.front.pending) = copies w past (waiting + w.front.pending) := by
    refine copies_congr fun e he => h.dataOf_grows (grows_sent _ _ _) ?_
    rw [← add_assoc] at he ⊢
    exact Multiset.mem_of_le (add_le_add_left hle _) he
  have hnew : (↑(w.medium.arrivals (w.nextSend id vtime) data.length) :
      Multiset QueueEvent).countP (AtHop (w.sent (w.nextSend id vtime) data queue) test) ≤
        if w.front.log.origin = some test then 1 else 0 := by
    have hdata : ∀ e ∈ w.medium.arrivals (w.nextSend id vtime) data.length,
        (w.sent (w.nextSend id vtime) data queue).dataOf e =
          w.front.log.origin.map fun test => (test, packetDataLayout.decode data) := fun e he => by
      have hp : (w.sent (w.nextSend id vtime) data queue).heap[w.heap.length]? =
        some { refcount := _, data } := List.getElem?_concat_length
      have hb : (w.sent (w.nextSend id vtime) data queue).front.log.sends[w.heap.length]? =
          some (w.nextSend id vtime) := by
        rw [World.sent, ← h.length_eq, List.getElem?_concat_length]
      exact dataOf_eq (Medium.packet_of_mem_arrivals he) hp hb
    split
    · rename_i horigin
      classical
      have hhop := w.medium.countP_arrivals (h.medium_eq ▸ hvalid) (w.nextSend id vtime)
        data.length (packetDataLayout.decode data).hop
      rw [Multiset.coe_countP]
      refine (List.countP_mono_left fun e he hat => ?_).trans (hhop.trans_le ?_)
      · obtain ⟨d, hd, hnode⟩ := of_decide_eq_true hat
        rw [hdata e he, horigin] at hd
        cases hd
        exact decide_eq_true hnode
      · split
        · exact le_rfl
        · exact Nat.zero_le 1
    · rename_i horigin
      refine (Multiset.countP_eq_zero.mpr fun e he hat => horigin ?_).le
      obtain ⟨d, hd, -⟩ := hat
      rw [hdata e (Multiset.mem_coe.mp he), Option.map_eq_some_iff] at hd
      obtain ⟨test', htest', heq⟩ := hd
      cases heq
      exact htest'
  rw [hqueue, add_left_comm, copies, Multiset.countP_add, Nat.add_assoc]
  change _ + copies _ past (waiting + w.front.pending) test ≤ _
  rw [hold]
  omega

/-- The books, and at most one copy left of every route test's packet among `waiting`, what is in
the queue, and what was reported in `past`. -/
structure Tracked (m : Medium) (ticks : Nat) (done held past waiting : Multiset QueueEvent)
    (w : World Traced) : Prop where
  /-- The books. -/
  accounts : Accounts m done held w
  /-- The copies. -/
  single : Single ticks past (waiting + w.front.pending) w

/-- Sending a new packet, when no copy is left of the route test it comes from. -/
theorem Tracked.sent (h : Tracked m ticks done held past waiting w) (hvalid : TopoValid m.topo)
    (hle : past + waiting ≤ done + held) {data : List UInt8} (hknown : Known data)
    (hlabelled : Labelled ticks data w.front.log.origin)
    (hnone : ∀ test, w.front.log.origin = some test →
      copies w past (waiting + w.front.pending) test = 0) {queue : EventQueue}
    (hqueue : queue.pending =
      ↑(w.medium.arrivals (w.nextSend id vtime) data.length) + w.front.pending) :
    Tracked m ticks done held past waiting (w.sent (w.nextSend id vtime) data queue) := by
  obtain ⟨haccounts, hlabels, hcopies⟩ := h
  refine ⟨haccounts.sent hknown hqueue, ?_, fun test => ?_⟩
  · intro ptr b p hb hp
    change (w.front.log.sends ++ [w.nextSend id vtime])[ptr]? = some b at hb
    change (w.heap ++ [_])[ptr]? = some p at hp
    rw [List.getElem?_append] at hb hp
    rw [haccounts.length_eq] at hb
    split at hp
    · rename_i hlt
      rw [if_pos hlt] at hb
      exact hlabels ptr b p hb hp
    · rename_i hge
      rw [if_neg hge] at hb
      rw [List.getElem?_singleton] at hb hp
      split at hp
      · rename_i hzero
        rw [if_pos hzero] at hb
        cases hb
        cases hp
        exact hlabelled
      · cases hp
  · refine (haccounts.copies_sent hvalid hle hqueue test).trans ?_
    split
    · rename_i horigin
      rw [hnone test horigin]
    · exact hcopies test

/-- Calls of `rand` make no copies. -/
theorem Tracked.skip (h : Tracked m ticks done held past waiting w) :
    Tracked m ticks done held past waiting (w.skip 1) := by
  obtain ⟨⟨hmedium, hlength, hknown, hdue, hvalid, haccount⟩, hlabels, hcopies⟩ := h
  exact ⟨⟨hmedium, hlength, hknown, hdue, hvalid, haccount⟩, hlabels, hcopies⟩

/-- Timer requests make no copies. -/
theorem Tracked.timer (h : Tracked m ticks done held past waiting w) {queue : EventQueue}
    {new : Multiset QueueEvent} (hqueue : queue.pending = new + w.front.pending)
    (hnew : ∀ e ∈ new, e.packet = none ∧ e.vtime < w.medium.eschaton) :
    Tracked m ticks done held past waiting ((w.skip 1).setFront (w.front.setQueue queue)) := by
  refine ⟨h.accounts.timer hqueue hnew, h.single.labelled, fun test => ?_⟩
  have hzero : new.countP (AtHop w test) = 0 := by
    refine Multiset.countP_eq_zero.mpr fun e he hat => ?_
    obtain ⟨d, hd, -⟩ := hat
    simp [World.dataOf, (hnew e he).1] at hd
  have hpending : (w.front.setQueue queue).pending = new + w.front.pending := hqueue
  rw [World.setFront_front, hpending, add_left_comm]
  change (new + (waiting + w.front.pending)).countP (AtHop w test) +
    past.countP (Reported w test) ≤ 1
  rw [Multiset.countP_add, hzero, Nat.zero_add]
  exact h.single.copies_le test

/-- What a node does that comes from no route test makes no copies. -/
theorem tracked_keptNewTimer (hvalid : TopoValid m.topo) (hle : past + waiting ≤ done + held) :
    KeptNewTimer tracedCallback id vtime (fun data => data.headD 0 = packetTypeBeacon)
      (fun _ => True)
      (fun w => Tracked m ticks done held past waiting w ∧ w.front.log.origin = none) where
  skip _ h := ⟨h.1.skip, h.2⟩
  sendNew data hne hdata w h := by
    refine (wp_sendNew_traced trivial trivial hne).imp fun _ w' hw' => ?_
    obtain ⟨queue, hpending, rfl⟩ := hw'
    refine ⟨h.1.sent hvalid hle (Or.inl hdata) ?_ (fun test htest => ?_) hpending, h.2⟩
    · rw [h.2]
      exact hdata
    · rw [h.2] at htest
      cases htest
  timer w delay extra _ h := by
    refine (wp_tracedCallback_timer trivial).imp fun _ w' hw' => ?_
    obtain ⟨queue, new, hpending, hnew, rfl⟩ := hw'
    exact ⟨h.1.timer hpending hnew, h.2⟩

/-- Passing on a data packet sends it to the hop that routing chooses, or does nothing. -/
theorem wp_nodeForwardData_traced {node : Node} {data : PacketData}
    {after : Unit → World Traced → Prop} (hstay : after () w)
    (hsend : ∀ (data' : PacketData) (queue : EventQueue), data'.packetType = data.packetType →
      data'.src = data.src → data'.vtime = data.vtime →
      queue.pending = ↑(w.medium.arrivals (w.nextSend node.id vtime)
        (packetDataLayout.encode data').length) + w.front.pending →
      after () (w.sent (w.nextSend node.id vtime) (packetDataLayout.encode data') queue)) :
    Wp (nodeForwardData tracedCallback node vtime data) after (fun _ => True) w := by
  rw [nodeForwardData]
  split
  · exact hstay
  · refine (wp_sendNew_traced trivial trivial (packetDataLayout_encode_ne_nil _)).imp
      fun _ w' hw' => ?_
    obtain ⟨queue, hpending, rfl⟩ := hw'
    exact hsend _ queue rfl rfl rfl hpending

/-! ## Route tests -/

/-- No copies come from route tests that have not been run. -/
theorem Single.copies_eq_zero (h : Single ticks past waiting w) {test : RouteTest}
    (htick : ticks ≤ test.tick) : copies w past waiting test = 0 := by
  have hnone : ∀ e, ¬ AtHop w test e := fun e hat => by
    obtain ⟨d, hd, -⟩ := hat
    obtain ⟨ptr, p, b, -, hp, hb, horigin, -⟩ := dataOf_cases hd
    have hlabel := h.labelled ptr b p hb hp
    rw [horigin] at hlabel
    exact absurd hlabel.1 (Nat.not_lt.mpr htick)
  rw [copies, Multiset.countP_eq_zero.mpr fun e _ => hnone e,
    Multiset.countP_eq_zero.mpr fun e _ hreported => hnone e hreported.atHop]

/-- The next tick. -/
theorem Tracked.nextTick (h : Tracked m ticks done held past waiting w) :
    Tracked m (ticks + 1) done held past waiting w := by
  refine ⟨h.accounts, fun ptr b p hb hp => ?_, h.single.copies_le⟩
  have hlabel := h.single.labelled ptr b p hb hp
  cases horigin : b.origin with
  | none => rwa [horigin] at hlabel
  | some test =>
    rw [horigin] at hlabel
    exact ⟨Nat.lt_succ_of_lt hlabel.1, hlabel.2⟩

/-- The copies do not depend on what is running. -/
theorem Tracked.startedBy (h : Tracked m ticks done held past waiting w)
    (origin : Option RouteTest) :
    Tracked m ticks done held past waiting
      (w.setFront { w.front with log := w.front.log.startedBy origin }) :=
  ⟨h.accounts.startedBy origin, h.single.labelled, h.single.copies_le⟩

/-- One route test sends at most one packet, the first with its node and tick. -/
theorem wp_routeTest (hvalid : TopoValid m.topo) (hle : past + waiting ≤ done + held) {node : Node}
    {rest : List Node} {tick : Nat} (hids : node.id ∉ rest.map Node.id)
    (h : Tracked m (tick + 1) done held past waiting w)
    (hnone : ∀ x ∈ node :: rest, copies w past (waiting + w.front.pending) ⟨x.id, tick⟩ = 0) :
    Wp (do
      writeLog (tracer.beforeTest tick node.id)
      nodeRouteTest tracedCallback node (tickTime tick))
      (fun _ w' => Tracked m (tick + 1) done held past waiting w' ∧
        ∀ x ∈ rest, copies w' past (waiting + w'.front.pending) ⟨x.id, tick⟩ = 0)
      (fun _ => True) w := by
  rw [wp_bind, wp_writeLog, nodeRouteTest]
  have hstarted := h.startedBy (some { node := node.id, tick })
  refine wp_nodeForwardData_traced ⟨hstarted, fun x hx => hnone x (List.mem_cons_of_mem _ hx)⟩
    fun data queue htype hsrc hvtime hqueue => ⟨?_, fun x hx => ?_⟩
  · refine hstarted.sent hvalid hle (Known.data htype)
      ⟨Nat.lt_succ_self tick, data, htype, hsrc, hvtime, rfl⟩ (fun test htest => ?_) hqueue
    obtain rfl : { node := node.id, tick } = test := Option.some.inj htest
    exact hnone node List.mem_cons_self
  · have hsent := hstarted.accounts.copies_sent hvalid hle hqueue ⟨x.id, tick⟩
    have hother : ¬ some { node := node.id, tick } = some (RouteTest.mk x.id tick) := fun heq => by
      have hid : node.id = x.id := congrArg RouteTest.node (Option.some.inj heq)
      exact hids (hid ▸ List.mem_map_of_mem hx)
    refine Nat.le_zero.mp (hsent.trans ?_)
    rw [World.setFront_front, if_neg]
    · exact (hnone x (List.mem_cons_of_mem _ hx)).le
    · exact hother

/-- A tick runs one route test for each node. -/
theorem Tracked.tick (hvalid : TopoValid m.topo) (hle : past + waiting ≤ done + held) {tick : Nat}
    {nodes : List Node} (hids : (nodes.map Node.id).Nodup) {vtimeTick' : VTime}
    (h : Tracked m tick done held past waiting w)
    (htick : tracer.tick tick nodes vtime (tickTime tick) w = .ok (vtimeTick', w')) :
    Tracked m (if tickTime tick < vtime then tick + 1 else tick) done held past waiting w' ∧
      vtimeTick' = tickTime (if tickTime tick < vtime then tick + 1 else tick) := by
  have hrun : Wp (tracer.tick tick nodes vtime (tickTime tick)) (fun vtimeTick' w' =>
      Tracked m (if tickTime tick < vtime then tick + 1 else tick) done held past waiting w' ∧
        vtimeTick' = tickTime (if tickTime tick < vtime then tick + 1 else tick))
      (fun _ => True) w := by
    unfold Logger.tick
    split
    · rw [wp_bind]
      refine wp_ofExcept (fun _ _ => ?_) fun _ _ => trivial
      rw [wp_bind]
      refine (wp_forM (fun rest w => (rest.map Node.id).Nodup ∧
        Tracked m (tick + 1) done held past waiting w ∧
        ∀ x ∈ rest, copies w past (waiting + w.front.pending) ⟨x.id, tick⟩ = 0) ?_
        ⟨hids, h.nextTick, fun x _ => h.single.copies_eq_zero le_rfl⟩).imp fun _ w' hw' =>
          ⟨hw'.2.1, rfl⟩
      rintro node rest w ⟨hnodup, htracked, hnone⟩
      rw [List.map_cons, List.nodup_cons] at hnodup
      exact (wp_routeTest hvalid hle hnodup.1 htracked hnone).imp fun _ _ hw' =>
        ⟨hnodup.2, hw'⟩
    · exact ⟨h, rfl⟩
  exact hrun.of_ok htick

end Sending

end OldRadio.Second
