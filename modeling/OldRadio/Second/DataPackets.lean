import OldRadio.Library.Lists
import OldRadio.Second.Copies

/-!
# Data packets are not duplicated

A node that passes a packet on has just taken the one copy out of the queue that
names it as hop; every other receiver ignores it, and the destination reports
it and sends nothing. So at most one copy is left of the packet of every route
test, in every state of every run.
-/

namespace OldRadio.Second

open Library

/-! ## Handling an event -/

section Handling

variable {F : Type} {ops : FloatOps F} {ticks : Nat} {m : Medium} {done : Multiset QueueEvent}
  {w : World Traced} {node : Node} {e : QueueEvent}

/-- The record tells where a packet comes from. -/
theorem Accounts.originOf {held : Multiset QueueEvent} (h : Accounts m done held w) {ptr : Nat}
    {b : Broadcast} (hb : w.front.log.sends[ptr]? = some b) :
    w.front.log.originOf ptr = b.origin := by
  have hptr : ∀ (i : Nat) (b' : Broadcast), w.front.log.sends[i]? = some b' → b'.ptr = i :=
    fun i b' hi => by
      have hlt := (List.getElem?_eq_some_iff.mp hi).1
      have hp := List.getElem?_eq_getElem (h.length_eq ▸ hlt)
      exact (h.account i b' _ hi hp).ptr_eq
  have hfind : w.front.log.sends.find? (fun b' => b'.ptr = ptr) = some b := by
    cases hf : w.front.log.sends.find? (fun b' => b'.ptr = ptr) with
    | none =>
      have hne := List.find?_eq_none.mp hf b (List.mem_of_getElem? hb)
      exact absurd (decide_eq_true (hptr ptr b hb)) hne
    | some b' =>
      obtain ⟨i, hi⟩ := List.getElem?_of_mem (List.mem_of_find?_eq_some hf)
      have hfound := List.find?_some hf
      rw [decide_eq_true_iff] at hfound
      obtain rfl : i = ptr := (hptr i b' hi).symm.trans hfound
      rw [← hb, hi]
  rw [Trace.originOf, hfind, Option.bind_some]

/-- An event that is being handled, when it is reported or takes no packet to its hop. -/
theorem Tracked.report (h : Tracked m ticks done {e} done {e} w)
    (he : ∀ test, AtHop w test e → Reported w test e) :
    Tracked m ticks done {e} (e ::ₘ done) 0 w := by
  have hsingle := h.single
  rw [Multiset.singleton_add] at hsingle
  refine ⟨h.accounts, ?_⟩
  rw [Multiset.zero_add]
  exact hsingle.report he

/-- An event that is being handled, when it is not reported. -/
theorem Tracked.pass (h : Tracked m ticks done {e} done {e} w)
    (he : ∀ test, ¬ Reported w test e) : Tracked m ticks done {e} (e ::ₘ done) 0 w := by
  have hsingle := h.single
  rw [Multiset.singleton_add] at hsingle
  refine ⟨h.accounts, ?_⟩
  rw [Multiset.zero_add]
  exact hsingle.take.pass he

private theorem handling_le (done : Multiset QueueEvent) (e : QueueEvent) :
    e ::ₘ done + 0 ≤ done + {e} := by
  rw [Multiset.add_zero, add_comm, Multiset.singleton_add]

/-- Receiving a beacon makes no copies. -/
theorem wp_nodeReceive_beacon (hvalid : TopoValid m.topo) {vtime : VTime}
    (h : Tracked m ticks done {e} done {e} w) (hnot : ∀ test, ¬ AtHop w test e) {ptr : Nat}
    {p : Packet} (hp : w.heap[ptr]? = some p) (hbeacon : p.data.headD 0 = packetTypeBeacon)
    (horigin : w.front.log.origin = none) :
    Wp (nodeReceive tracedCallback node vtime ptr)
      (fun _ w' => Single ticks (e ::ₘ done) (0 + w'.front.pending) w') (fun _ => True) w := by
  have hnotData : p.data.headD 0 ≠ packetTypeData := by
    rw [hbeacon]
    decide
  have hnotFlood : p.data.headD 0 ≠ packetTypeFlood := by
    rw [hbeacon]
    decide
  have hquiet := h.report fun test hat => absurd hat (hnot test)
  exact ((tracked_keptNewTimer hvalid (handling_le done e)).wp_nodeReceive
    (fun htype => absurd htype hnotData) hp (fun _ => trivial) (fun _ _ _ => trivial)
    (fun _ _ _ _ _ => trivial) (fun _ _ => trivial) (fun htype => absurd htype hnotFlood)
    ⟨hquiet, horigin⟩).imp fun _ w' hw' => hw'.1.single

/-- Passing on the copy that was received makes another one in its place. -/
theorem wp_nodeForwardData_single (hvalid : TopoValid m.topo) {vtime : VTime}
    (h : Tracked m ticks done {e} done {e} w) {test : RouteTest} {d : PacketData}
    (hdata : w.dataOf e = some (test, d)) (hhop : e.node = some d.hop.toNat)
    (hdst : d.dst ≠ d.hop) (hlabel : Labelled ticks (packetDataLayout.encode d) (some test))
    (horigin : w.front.log.origin = some test) :
    Wp (nodeForwardData tracedCallback node vtime d)
      (fun _ w' => Single ticks (e ::ₘ done) (0 + w'.front.pending) w') (fun _ => True) w := by
  obtain ⟨htick, d', htype, hsrc, hvtime, hencode⟩ := hlabel
  obtain rfl : d = d' := by
    rw [← packetDataLayout.decode_encode_self d, hencode, packetDataLayout.decode_encode_self]
  have hat : AtHop w test e := ⟨d, hdata, hhop⟩
  have hnot : ∀ test', ¬ Reported w test' e := fun test' hreported => by
    obtain ⟨d', hd', -, heq⟩ := hreported
    cases hdata.symm.trans hd'
    exact hdst heq
  have hpass := h.pass hnot
  refine wp_nodeForwardData_traced hpass.single fun data queue htype' hsrc' hvtime' hqueue => ?_
  refine (hpass.sent hvalid (handling_le done e) (Known.data (htype'.trans htype)) ?_
    (fun test' htest' => ?_) hqueue).single
  · rw [horigin]
    exact ⟨htick, data, htype'.trans htype, hsrc'.trans hsrc, hvtime'.trans hvtime, rfl⟩
  · obtain rfl : test = test' := Option.some.inj (horigin.symm.trans htest')
    have hle := h.single.copies_le test
    rw [Multiset.singleton_add, copies_cons, if_pos hat] at hle
    rw [Multiset.zero_add, copies_done, if_neg (hnot test)]
    omega

/-- Receiving a packet sends on at most the copy that was received. -/
theorem wp_nodeReceive_single (hvalid : TopoValid m.topo) {vtime : VTime}
    (h : Tracked m ticks done {e} done {e} w) (hnode : e.node = some node.id.toNat) {ptr : Nat}
    (hptr : e.packet = some ptr) {p : Packet} (hp : w.heap[ptr]? = some p) {b : Broadcast}
    (hb : w.front.log.sends[ptr]? = some b) (horigin : w.front.log.origin = b.origin) :
    Wp (nodeReceive tracedCallback node vtime ptr)
      (fun _ w' => Single ticks (e ::ₘ done) (0 + w'.front.pending) w') (fun _ => True) w := by
  have hdata := dataOf_eq hptr hp hb
  have hlabel := h.single.labelled ptr b p hb hp
  cases hfrom : b.origin with
  | none =>
    rw [hfrom] at hlabel hdata
    refine wp_nodeReceive_beacon hvalid h (fun test hat => ?_) hp hlabel (horigin.trans hfrom)
    obtain ⟨d, hd, -⟩ := hat
    cases hdata.symm.trans hd
  | some test =>
    rw [hfrom] at hlabel hdata
    have hlabel' := hlabel
    obtain ⟨-, d, htype, -, -, hencode⟩ := hlabel'
    have hdecode : packetDataLayout.decode p.data = d := by
      rw [hencode, packetDataLayout.decode_encode_self]
    have hcarries : Carries ptr e := hptr
    have hheld : p.refcount ≠ 0 := by
      rw [(h.accounts.account ptr b p hb hp).refcount_eq, Multiset.singleton_add,
        Multiset.countP_cons_of_pos _ hcarries]
      exact Nat.succ_ne_zero _
    have hpacket : p.data.headD 0 = packetTypeData := by rw [hencode, headD_encode, htype]
    have hlength : packetDataLayout.size ≤ p.data.length := by
      rw [hencode, packetDataLayout.length_encode]
    rw [wp_nodeReceive_data hp hheld hpacket hlength, hdecode]
    rw [hdecode] at hdata
    rw [hencode] at hlabel
    split
    · rename_i hforward
      obtain ⟨hhop, hdst⟩ := hforward
      exact wp_nodeForwardData_single hvalid h hdata (by rw [hnode, hhop]) (hhop ▸ hdst) hlabel
        (horigin.trans hfrom)
    · rename_i hkeep
      refine (h.report fun test' hat => ?_).single
      obtain ⟨d', hd', hhop⟩ := hat
      cases hdata.symm.trans hd'
      refine ⟨d, hdata, hhop, ?_⟩
      rw [hnode, Option.some.injEq] at hhop
      have hid : d.hop = node.id := (UInt16.toNat_inj.mp hhop).symm
      by_contra hne
      exact hkeep ⟨hid, hid ▸ hne⟩

/-- Handing an event to its node keeps at most one copy of every route test's packet. -/
theorem wp_tracedHandle_single (hvalid : TopoValid m.topo)
    (h : Tracked m ticks done {e} done {e} w) (hnode : e.node = some node.id.toNat) :
    Wp (tracer.handle ops node e)
      (fun _ w' => Single ticks (e ::ₘ done) (0 + w'.front.pending) w') (fun _ => True) w := by
  cases hptr : e.packet with
  | none =>
    rw [Logger.wp_handle_timer hptr]
    have horigin : e.packet.bind w.front.log.originOf = none := by rw [hptr, Option.bind_none]
    have hquiet := h.report fun test hat => by
      obtain ⟨d, hd, -⟩ := hat
      obtain ⟨ptr, -, -, hptr', -⟩ := dataOf_cases hd
      cases hptr.symm.trans hptr'
    exact ((tracked_keptNewTimer hvalid (handling_le done e)).keeps_nodeTimer (fun _ _ => rfl)
      e.extra _ ⟨hquiet.startedBy _, horigin⟩).imp fun _ w' hw' => hw'.1.single
  | some ptr =>
    have hlt : ptr < w.heap.length := h.accounts.valid e (by simp) ptr hptr
    have hp := List.getElem?_eq_getElem hlt
    have hb := List.getElem?_eq_getElem (h.accounts.length_eq ▸ hlt)
    have horigin := h.accounts.originOf hb
    rw [← Option.bind_some ptr w.front.log.originOf, ← hptr] at horigin
    rw [Logger.wp_handle_packet hptr]
    refine (wp_nodeReceive_single hvalid (h.startedBy (e.packet.bind w.front.log.originOf)) hnode
      hptr hp hb horigin).imp fun node' w' hw' => ?_
    rw [packetFree, wp_bind]
    exact wp_packetRead trivial fun p' hp' => hw'.poke hp'

end Handling

/-! ## Every run -/

/-- Nodes have their positions as identities. -/
def Placed (nodes : List Node) : Prop :=
  ∀ (i : Nat) (node : Node), nodes[i]? = some node → node.id.toNat = i

theorem Placed.nodup {nodes : List Node} (h : Placed nodes) : (nodes.map Node.id).Nodup := by
  rw [List.nodup_iff_getElem?_ne_getElem?]
  intro i j hij hj heq
  rw [List.length_map] at hj
  rw [List.getElem?_map, List.getElem?_map, List.getElem?_eq_getElem (hij.trans hj),
    List.getElem?_eq_getElem hj, Option.map_some, Option.map_some, Option.some.injEq] at heq
  have hi' := h i _ (List.getElem?_eq_getElem (hij.trans hj))
  have hj' := h j _ (List.getElem?_eq_getElem hj)
  rw [heq, hj'] at hi'
  omega

theorem Placed.set {nodes : List Node} (h : Placed nodes) {i : Nat} {node : Node}
    (hid : node.id.toNat = i) : Placed (nodes.set i node) :=
  forall_set h hid

/-- The invariant of the main loop. -/
structure SingleSim (m : Medium) (done : Multiset QueueEvent) (t : TracedSim) : Prop where
  /-- Nodes are in order. -/
  placed : Placed t.nodes
  /-- The time of the next tick. -/
  tick_eq : t.vtimeTick = tickTime t.ticks
  /-- There is at most one tick for each event. -/
  ticks_le : t.ticks ≤ done.card
  /-- The copies. -/
  tracked : Tracked m t.ticks done 0 done 0 t.world

section Runs

variable {F : Type} {ops : FloatOps F} {m : Medium} {done : Multiset QueueEvent}

/-- Taking an event out of the queue keeps the copies. -/
theorem Tracked.hold {ticks : Nat} {w : World Traced} {e : QueueEvent} {queue : EventQueue}
    (h : Tracked m ticks done 0 done 0 w) (hqueue : w.front.pending = e ::ₘ queue.pending) :
    Tracked m ticks done {e} done {e} (w.setFront (w.front.setQueue queue)) := by
  have hpending : 0 + w.front.pending = {e} + (w.front.setQueue queue).pending := by
    rw [Multiset.zero_add, hqueue, Multiset.singleton_add]
    rfl
  refine ⟨h.accounts.hold hqueue, h.single.labelled, fun test => ?_⟩
  have hle := h.single.copies_le test
  rw [hpending] at hle
  exact hle

/-- A turn of the main loop keeps the invariant. -/
theorem SingleSim.step (hvalid : TopoValid m.topo) {t t' : TracedSim} {e : QueueEvent}
    (h : SingleSim m done t) (hstep : TracedStep ops t e t') : SingleSim m (e ::ₘ done) t' := by
  obtain ⟨hplaced, htime, hticks, htracked⟩ := h
  have haccounts := htracked.accounts.step hstep
  obtain ⟨queue, tested, world, vtimeTick, i, node, node', hpending, htick, hi, hnode, hhandle,
    rfl⟩ := hstep.turn.ran
  rw [htime] at htick
  obtain ⟨htested, hnext⟩ := (htracked.hold hpending).tick hvalid le_rfl hplaced.nodup htick
  have hid := hplaced i node hnode
  have hsingle := (wp_tracedHandle_single hvalid htested (by rw [hi, hid])).of_ok hhandle
  have hid' : node'.id = node.id := (Logger.wp_handle_node.of_ok hhandle).id_eq
  rw [← htime] at hnext hsingle
  refine ⟨hplaced.set (by rw [hid', hid]), hnext, ?_, haccounts, hsingle⟩
  rw [Multiset.card_cons]
  dsimp only
  split <;> omega

/-- The invariant at the start. -/
theorem singleSim_start {args : SimArgs} {tape : Nat → Fin randRange}
    {uninit : Nat → List UInt8} {t : TracedSim} (h : tracer.start .blank args tape uninit = .ok t) :
    ∃ m : Medium, TopoValid m.topo ∧ SingleSim m 0 t := by
  obtain ⟨topo, dims, nodes, world, htopo, hnodes, rfl⟩ := Logger.start_cases h
  let m : Medium := { tape, topo, eschaton := simEschaton args.timeout }
  have hvalid : TopoValid m.topo := (topoRead_valid htopo).1
  have hblank : Tracked m 0 0 0 0 0
      (loggedWorld .blank (simBlank topo dims (simEschaton args.timeout) tape uninit)) := by
    refine ⟨accounts_blank topo dims _ tape uninit, ⟨fun ptr b p hb => ?_, fun test => ?_⟩⟩
    · cases hb
    · exact Nat.zero_le 1
  obtain ⟨hinitial, htracked, -⟩ := (Logger.wp_nodes
    (fun _ => tracked_keptNewTimer hvalid le_rfl) args.nodeOpts _ ⟨hblank, rfl⟩).of_ok hnodes
  exact ⟨m, hvalid, fun i node hnode =>
    (Initial.placed (Nat.succ_le_of_lt topo.maxId.toNat_lt) hinitial hnode).1, rfl, le_rfl,
    htracked⟩

/-- The invariant holds in every state of every run. -/
theorem TracedRun.single {args : SimArgs} {tape : Nat → Fin randRange}
    {uninit : Nat → List UInt8} {events : List QueueEvent} {t : TracedSim}
    (h : TracedRun ops args tape uninit events t) : ∃ m : Medium, SingleSim m ↑events t := by
  obtain ⟨t₀, hstart, hrun⟩ := h
  obtain ⟨m, hvalid, hzero⟩ := singleSim_start hstart
  refine ⟨m, hrun.keeps_labels
    (I := fun events t => SingleSim m (↑events : Multiset QueueEvent) t) ?_ hzero⟩
  intro done t e t' hdone hstep
  rw [← Multiset.coe_add, add_comm, Multiset.coe_singleton, Multiset.singleton_add]
  exact hdone.step hvalid hstep

end Runs

/-! ## Without the record -/

/-- The data packet that an event carries. -/
def World.dataPacket {Front : Type} (w : World Front) (e : QueueEvent) : Option PacketData := do
  let ptr ← e.packet
  let p ← w.heap[ptr]?
  if p.data.headD 0 = packetTypeData then some (packetDataLayout.decode p.data) else none

/-- An event takes the data packet that `src` made at `vtime` to the hop it names. -/
def TakesToHop {Front : Type} (w : World Front) (src : NodeId) (vtime : VTime) (e : QueueEvent) :
    Prop :=
  ∃ d, w.dataPacket e = some d ∧ d.src = src ∧ d.vtime = vtime ∧ e.node = some d.hop.toNat

/-- The hop is the destination too: the node reports the packet as received. -/
def Reports {Front : Type} (w : World Front) (src : NodeId) (vtime : VTime) (e : QueueEvent) :
    Prop :=
  ∃ d, w.dataPacket e = some d ∧ d.src = src ∧ d.vtime = vtime ∧ e.node = some d.hop.toNat ∧
    d.dst = d.hop

instance {Front : Type} (w : World Front) (src : NodeId) (vtime : VTime) :
    DecidablePred (TakesToHop w src vtime) := fun e =>
  decidable_of_iff ((w.dataPacket e).any fun d =>
    d.src = src ∧ d.vtime = vtime ∧ e.node = some d.hop.toNat) (by
      simp only [Option.any_eq_true, decide_eq_true_iff, TakesToHop])

instance {Front : Type} (w : World Front) (src : NodeId) (vtime : VTime) :
    DecidablePred (Reports w src vtime) := fun e =>
  decidable_of_iff ((w.dataPacket e).any fun d =>
    d.src = src ∧ d.vtime = vtime ∧ e.node = some d.hop.toNat ∧ d.dst = d.hop) (by
      simp only [Option.any_eq_true, decide_eq_true_iff, Reports])

theorem toNat_tickTime (k : Nat) : (tickTime k).toNat = k * vtimeSeconds % 2 ^ 64 := by
  induction k with
  | zero => rw [Nat.zero_mul, Nat.zero_mod, tickTime, vtimeZero, UInt64.toNat_zero]
  | succ k ih =>
    rw [tickTime, VTime.after, UInt64.toNat_add, ih, UInt64.toNat_ofNat', Nat.succ_mul,
      ← Nat.add_mod]

/-- The clock has the same time again after `2 ^ 58` ticks. -/
theorem tickTime_inj {k k' : Nat} (hk : k < 2 ^ 58) (hk' : k' < 2 ^ 58)
    (h : tickTime k = tickTime k') : k = k' := by
  have hnat : k * vtimeSeconds ≡ k' * vtimeSeconds [MOD 2 ^ 64] := by
    rw [Nat.ModEq, ← toNat_tickTime, ← toNat_tickTime, h]
  have hmod : k ≡ k' [MOD 2 ^ 58] := hnat.cancel_right_div_gcd (Nat.two_pow_pos 64)
  exact Nat.ModEq.eq_of_lt_of_lt hmod hk hk'

section Bare

variable {ticks : Nat} {m : Medium} {done waiting : Multiset QueueEvent} {w : World Traced}
  {e : QueueEvent}

/-- Every data packet comes from a route test of the node that made it, at the time it was made. -/
theorem Single.dataOf_of_dataPacket (h : Single ticks done waiting w)
    (hlength : w.front.log.sends.length = w.heap.length) {d : PacketData}
    (hd : w.dataPacket e = some d) :
    ∃ k < ticks, tickTime k = d.vtime ∧ w.dataOf e = some (⟨d.src, k⟩, d) := by
  unfold World.dataPacket at hd
  obtain ⟨ptr, hptr, hd⟩ := Option.bind_eq_some_iff.mp hd
  obtain ⟨p, hp, hd⟩ := Option.bind_eq_some_iff.mp hd
  split at hd
  · rename_i htype
    cases hd
    obtain ⟨b, hb⟩ : ∃ b, w.front.log.sends[ptr]? = some b :=
      ⟨_, List.getElem?_eq_getElem (hlength ▸ (List.getElem?_eq_some_iff.mp hp).1)⟩
    have hdata := dataOf_eq hptr hp hb
    have hlabel := h.labelled ptr b p hb hp
    cases horigin : b.origin with
    | none =>
      rw [horigin] at hlabel
      rw [hlabel] at htype
      exact absurd htype (by decide)
    | some test =>
      rw [horigin] at hlabel hdata
      obtain ⟨htick, d, -, hsrc, hvtime, hencode⟩ := hlabel
      have hdecode : packetDataLayout.decode p.data = d := by
        rw [hencode, packetDataLayout.decode_encode_self]
      rw [hdecode] at hdata ⊢
      refine ⟨test.tick, htick, hvtime.symm, ?_⟩
      rw [hdata, hsrc]
      rfl
  · cases hd

/-- As long as the clock has not the same time again, the packet that a node made at a time is the
packet of one route test. -/
theorem Single.countP_le_one (h : Single ticks done waiting w)
    (hlength : w.front.log.sends.length = w.heap.length) (hticks : ticks ≤ 2 ^ 58) (src : NodeId)
    (vtime : VTime) :
    waiting.countP (TakesToHop w src vtime) + done.countP (Reports w src vtime) ≤ 1 := by
  have horigin : ∀ e d, w.dataPacket e = some d → d.src = src → d.vtime = vtime →
      ∃ k < ticks, tickTime k = vtime ∧ w.dataOf e = some (⟨src, k⟩, d) := by
    rintro e d hd rfl rfl
    exact h.dataOf_of_dataPacket hlength hd
  by_cases hex : ∃ k < ticks, tickTime k = vtime
  · obtain ⟨k, hk, rfl⟩ := hex
    have hsame : ∀ e d, w.dataPacket e = some d → d.src = src → d.vtime = tickTime k →
        w.dataOf e = some (⟨src, k⟩, d) := fun e d hd hsrc hvtime => by
      obtain ⟨k', hk', htime, hdata⟩ := horigin e d hd hsrc hvtime
      rwa [tickTime_inj (hk'.trans_le hticks) (hk.trans_le hticks) htime] at hdata
    have hwaiting : waiting.countP (TakesToHop w src (tickTime k)) ≤
        waiting.countP (AtHop w ⟨src, k⟩) := by
      rw [Multiset.countP_eq_card_filter, Multiset.countP_eq_card_filter]
      refine Multiset.card_le_card (Multiset.monotone_filter_right _ fun e he => ?_)
      obtain ⟨d, hd, hsrc, hvtime, hnode⟩ := he
      exact ⟨d, hsame e d hd hsrc hvtime, hnode⟩
    have hdone : done.countP (Reports w src (tickTime k)) ≤
        done.countP (Reported w ⟨src, k⟩) := by
      rw [Multiset.countP_eq_card_filter, Multiset.countP_eq_card_filter]
      refine Multiset.card_le_card (Multiset.monotone_filter_right _ fun e he => ?_)
      obtain ⟨d, hd, hsrc, hvtime, hnode, hdst⟩ := he
      exact ⟨d, hsame e d hd hsrc hvtime, hnode, hdst⟩
    exact (Nat.add_le_add hwaiting hdone).trans (h.copies_le ⟨src, k⟩)
  · have hnone : ∀ e d, w.dataPacket e = some d → d.src = src → d.vtime ≠ vtime :=
      fun e d hd hsrc hvtime => by
        obtain ⟨k, hk, htime, -⟩ := horigin e d hd hsrc hvtime
        exact hex ⟨k, hk, htime⟩
    have hwaiting : waiting.countP (TakesToHop w src vtime) = 0 :=
      Multiset.countP_eq_zero.mpr fun e _ he => by
        obtain ⟨d, hd, hsrc, hvtime, -⟩ := he
        exact hnone e d hd hsrc hvtime
    have hdone : done.countP (Reports w src vtime) = 0 :=
      Multiset.countP_eq_zero.mpr fun e _ he => by
        obtain ⟨d, hd, hsrc, hvtime, -⟩ := he
        exact hnone e d hd hsrc hvtime
    rw [hwaiting, hdone]
    exact Nat.zero_le 1

end Bare

/-- No data packet is duplicated. In every state of every run and for every call of
`node_route_test`, at most one event is left that takes the packet of this call to the hop it names,
counting the events in the queue and the ones that were reported by their destination. Every data
packet there is comes from such a call, by the node and at the time it names; so until the clock has
the same time again, the same holds of the packets that a node made at a time. -/
theorem data_packets_single {F : Type} (ops : FloatOps F) {args : SimArgs}
    {tape : Nat → Fin randRange} {uninit : Nat → List UInt8} {s₀ s : Sim}
    {events : List QueueEvent} (hstart : simStart args tape uninit = .ok s₀)
    (hrun : Run (SimStep ops) s₀ events s) :
    ∃ t, TracedRun ops args tape uninit events t ∧ t.erase = s ∧
      s.vtimeTick = tickTime t.ticks ∧
      (∀ test, s.world.pending.countP (AtHop t.world test) +
        (↑events : Multiset QueueEvent).countP (Reported t.world test) ≤ 1) ∧
      (∀ e d, s.world.dataPacket e = some d → ∃ k < t.ticks, tickTime k = d.vtime ∧
        t.world.dataOf e = some (⟨d.src, k⟩, d)) ∧
      (events.length ≤ 2 ^ 58 → ∀ src vtime,
        s.world.pending.countP (TakesToHop s.world src vtime) +
          (↑events : Multiset QueueEvent).countP (Reports s.world src vtime) ≤ 1) := by
  obtain ⟨t, htraced, rfl⟩ := simRun_traced ops hstart hrun
  obtain ⟨m, -, htime, hticks, haccounts, hsingle⟩ := htraced.single
  rw [Multiset.zero_add] at hsingle
  refine ⟨t, htraced, rfl, htime, hsingle.copies_le, fun e d hd => ?_, fun hlength => ?_⟩
  · exact hsingle.dataOf_of_dataPacket haccounts.length_eq hd
  · exact hsingle.countP_le_one haccounts.length_eq (hticks.trans hlength)

/-- The packet that node 1 makes after two seconds is reported by node 0, so none is left. -/
theorem data_packets_single_threeSeconds :
    ∃ s₀ s events, simStart threeSeconds (fun _ => 10) (fun _ => []) = .ok s₀ ∧
      Run (SimStep integerOps) s₀ events s ∧ events.length = 17 ∧
      (↑events : Multiset QueueEvent).countP (Reports s.world 1 2000000) = 1 ∧
      s.world.pending.countP (TakesToHop s.world 1 2000000) = 0 ∧
      ∃ t, TracedRun integerOps threeSeconds (fun _ => 10) (fun _ => []) events t ∧
        ∀ test, s.world.pending.countP (AtHop t.world test) +
          (↑events : Multiset QueueEvent).countP (Reported t.world test) ≤ 1 := by
  have hrun : (do
      let s ← simStart threeSeconds (fun _ => 10) fun _ => []
      let r ← simRun integerOps (fun _ _ => true) 17 s
      return (r.1.length, r.1.countP fun e => Reports r.2.world 1 2000000 e)) =
        (Except.ok (17, 1) : Except Abort _) := by decide +kernel
  obtain ⟨s₀, hstart, hrun⟩ := bind_eq_ok hrun
  obtain ⟨⟨events, s⟩, hevents, hrun⟩ := bind_eq_ok hrun
  obtain ⟨hlength, hreports⟩ := Prod.mk.inj (Except.ok.inj hrun)
  have hsteps : Run (SimStep integerOps) s₀ events s :=
    (simRun_run integerOps hevents).mono fun _ _ _ h => h.1
  obtain ⟨t, htraced, -, -, htests, -, hbare⟩ := data_packets_single integerOps hstart hsteps
  have hle := hbare (by rw [hlength]; decide) 1 2000000
  have hone : (↑events : Multiset QueueEvent).countP (Reports s.world 1 2000000) = 1 := by
    rw [Multiset.coe_countP]
    exact hreports
  refine ⟨s₀, s, events, hstart, hsteps, hlength, hone, ?_, t, htraced, htests⟩
  omega

end OldRadio.Second
