import OldRadio.Library.Flooding
import OldRadio.Second.SimEnds
import OldRadio.Second.WakeTimes

/-!
# Waking spreads link by link

A node that calls has a timer within 1.500999 seconds, its beacon arrives within
0.198999 seconds, and a node takes 2.5 seconds to wake. So each link of a walk
from a node that is awake from the start costs 4.2 seconds at most: when the
main loop has handled all that is due by then, or has come to its end, the node
at the end of the walk is awake.
-/

namespace OldRadio.Second

open Library
open Node (M)

/-- Node `v` is at the end of a walk of `d` links from node `u`. -/
def Hops (topo : Topo) (u v : NodeId) (d : Nat) : Prop := Walk topo.Link (fun _ _ => 1) u v d

/-- Waking spreads from a node along walks of up to `last` links. -/
structure WakeWave (topo : Topo) (source : NodeId) (last : Nat) (s : Sim) : Prop where
  /-- Only nodes that call have said calls. -/
  called : InFlight topo (SaidBy s.nodes) 0 s.world
  /-- The node calls. -/
  source_calls : Caller s.nodes source
  /-- A node that is waking at the end of a walk is awake in time. -/
  waking : ∀ d ≤ last, ∀ v, Hops topo source v d → ∀ node : Node, s.nodes[v.toNat]? = some node →
    node.status = .waking →
      node.wakeTime.toNat ≤ 4200000 * d ∧ TimerDue v (node.wakeTime.toNat + 1500999) s.world
  /-- A node that sleeps one link further is called in time, or is to be. -/
  asleep : ∀ d < last, ∀ u, Hops topo source u d → ∀ v, topo.Link u v → Caller s.nodes u →
    ∀ node : Node, s.nodes[v.toNat]? = some node → node.status = .asleep →
      TimerDue u (4200000 * d + 1500999) s.world ∨ CallDue v (4200000 * d + 1699998) s.world

section Wave

variable {F : Type} {ops : FloatOps F} {topo : Topo} {source : NodeId} {last : Nat} {s s' : Sim}

/-- What is due by a time is before all that is to come. -/
theorem TimerDue.first_le {id : NodeId} {limit first : Nat} {w : World SimFront}
    (h : TimerDue id limit w) (hfirst : ∀ f ∈ w.pending, first ≤ f.vtime.toNat) :
    first ≤ limit := by
  obtain ⟨f, hf, -, -, hdue⟩ := h
  exact (hfirst f hf).trans hdue

theorem CallDue.first_le {id : NodeId} {limit first : Nat} {w : World SimFront}
    (h : CallDue id limit w) (hfirst : ∀ f ∈ w.pending, first ≤ f.vtime.toNat) :
    first ≤ limit := by
  obtain ⟨f, hf, _, _, -, -, -, -, hdue⟩ := h
  exact (hfirst f hf).trans hdue

/-- At the end of a walk a node calls, or what wakes it is still to come. -/
theorem WakeWave.first_le (h : WakeWave topo source last s) (hnodes : SoundNodes topo s.nodes)
    {first : Nat} (hfirst : ∀ f ∈ s.world.pending, first ≤ f.vtime.toNat) {v : NodeId} {d : Nat}
    (hhops : Hops topo source v d) (hle : d ≤ last) {node : Node}
    (hnode : s.nodes[v.toNat]? = some node) :
    node.Calls ∨ (first ≤ 4200000 * d + 1500999 ∧
      (node.status = .asleep → first + 2500002 ≤ 4200000 * d)) := by
  have hwhole := hhops
  induction hhops generalizing node with
  | nil =>
    obtain ⟨x, hx, hcalls⟩ := h.source_calls
    obtain rfl : x = node := Option.some.inj (hx.symm.trans hnode)
    exact Or.inl hcalls
  | @snoc u v p hwalk hlink ih =>
    by_cases hasleep : node.status = .asleep
    · -- the node before it on the walk calls, or is itself still to wake
      obtain ⟨x, hx, -⟩ := hnodes.exists_node hlink.le_maxId.1
      have hle' : p < last := hle
      rcases ih hle'.le hx hwalk with hcalls | ⟨hbefore, -⟩
      · rcases h.asleep p hle' u hwalk v hlink ⟨x, hx, hcalls⟩ node hnode hasleep with hdue | hdue
        · have := hdue.first_le hfirst
          exact Or.inr ⟨by omega, fun _ => by omega⟩
        · have := hdue.first_le hfirst
          exact Or.inr ⟨by omega, fun _ => by omega⟩
      · exact Or.inr ⟨by omega, fun _ => by omega⟩
    · by_cases hwaking : node.status = .waking
      · obtain ⟨hwake, hdue⟩ := h.waking _ hle v hwhole node hnode hwaking
        have := hdue.first_le hfirst
        exact Or.inr ⟨by omega, fun hnot => absurd hnot hasleep⟩
      · exact Or.inl ⟨hasleep, hwaking⟩

/-- A turn of the main loop lets the waking spread on. -/
theorem WakeWave.step {args : SimArgs} {tape : Nat → Fin randRange} {uninit : Nat → List UInt8}
    {e : QueueEvent} (h : WakeWave topo source last s) (hvalid : TopoValid topo)
    (hsound : SoundSim topo s) (hreach : SimReachable ops args tape uninit s)
    (hroom : 4200000 * last + 1500999 < s.world.front.eschaton.toNat)
    (hstep : SimStep ops s e s') : WakeWave topo source last s' := by
  obtain ⟨node, node', queue, tested, hturn⟩ := hstep.eventTurn hsound
  have htopo := h.called.topo_eq
  refine ⟨hturn.called_after h.called hreach.sleepersQuiet, hturn.caller h.source_calls, ?_, ?_⟩
  · intro d hd v hhops x hx hwaking
    refine hturn.waking_after hvalid htopo le_rfl (by omega) (h.waking d hd v hhops) ?_ hx hwaking
    rintro ptr p rfl hasleep - hptr hp hcall
    have hexact := hreach.wakes_early hturn hasleep hptr hp hcall
    have hperiod : nodeWakeupPeriod = 2500000 := rfl
    rcases h.first_le hsound.2 hturn.first hhops hd hturn.node_eq with hcalls | ⟨-, hwakes⟩
    · exact absurd hasleep hcalls.1
    · have := hwakes hasleep
      omega
  · intro d hd u hhops v hlink hu x hx hasleep
    exact hturn.asleep_after hvalid htopo (by omega)
      (fun y hu => h.asleep d hd u hhops v hlink hu y) (h.waking d hd.le u hhops) hu hlink hx
      hasleep

theorem wakeWave_start {args : SimArgs} {tape : Nat → Fin randRange} {uninit : Nat → List UInt8}
    (hstart : simStart args tape uninit = .ok s) (htopo : topoRead args.links = .ok topo)
    (hsource : Caller s.nodes source)
    (hroom : 4200000 * last + 1500999 < (simEschaton args.timeout).toNat) :
    WakeWave topo source last s where
  called := called_start hstart htopo
  source_calls := hsource
  waking _ _ _ _ _ hnode hwaking := absurd hwaking (startNode_start hstart hnode).not_waking
  asleep _ _ _ _ _ _ hu _ _ _ :=
    Or.inl ((timerDue_start hstart (by omega) hu).le (by omega))

/-- Waking spreads in every run. -/
theorem wakeWave_run {args : SimArgs} {tape : Nat → Fin randRange} {uninit : Nat → List UInt8}
    {s₀ : Sim} {events : List QueueEvent} (hstart : simStart args tape uninit = .ok s₀)
    (htopo : topoRead args.links = .ok topo) (hsource : Caller s₀.nodes source)
    (hroom : 4200000 * last + 1500999 < (simEschaton args.timeout).toNat)
    (hrun : Run (SimStep ops) s₀ events s) :
    SoundSim topo s ∧ WakeWave topo source last s := by
  obtain ⟨topo', htopo', hsound⟩ := soundSim_start hstart
  cases htopo.symm.trans htopo'
  have hvalid := (topoRead_valid htopo).1
  refine (hrun.keeps_labels (I := fun events s => Run (SimStep ops) s₀ events s ∧
    s.world.front.eschaton = simEschaton args.timeout ∧ SoundSim topo s ∧
      WakeWave topo source last s) ?_
    ⟨.nil s₀, eschaton_start hstart, hsound, wakeWave_start hstart htopo hsource hroom⟩).2.2
  rintro done s e s' ⟨hdone, heschaton, hsound, hwave⟩ hstep
  obtain ⟨node, node', queue, tested, hturn⟩ := hstep.eventTurn hsound
  exact ⟨hdone.snoc hstep, hturn.eschaton_eq.trans heschaton, hsound.step hstep,
    hwave.step hvalid hsound ⟨s₀, done, hstart, hdone⟩ (by rw [heschaton]; exact hroom) hstep⟩

/-- A node that asks for a timer when it is initialised calls when the main loop starts. -/
theorem caller_start {args : SimArgs} {tape : Nat → Fin randRange} {uninit : Nat → List UInt8}
    (hstart : simStart args tape uninit = .ok s) (htopo : topoRead args.links = .ok topo)
    (hexists : source.toNat ≤ topo.maxId.toNat)
    (hstarts : StartsTimer args.nodeOpts source.toNat) : Caller s.nodes source := by
  obtain ⟨topo', htopo', -, hnodes⟩ := soundSim_start hstart
  cases htopo.symm.trans htopo'
  obtain ⟨node, hnode, -⟩ := hnodes.exists_node hexists
  have hinitial := startNode_start hstart hnode
  exact ⟨node, hnode, fun hasleep => hinitial.asleep_iff.mp hasleep hstarts, hinitial.not_waking⟩

end Wave

/-- When all that could wake it is over, a node at the end of a walk is awake. -/
theorem WakeWave.awake {F : Type} {ops : FloatOps F} {args : SimArgs} {tape : Nat → Fin randRange}
    {uninit : Nat → List UInt8} {topo : Topo} {s₀ s : Sim} {events : List QueueEvent}
    {source v : NodeId} {d limit : Nat} (hstart : simStart args tape uninit = .ok s₀)
    (htopo : topoRead args.links = .ok topo) (hrun : Run (SimStep ops) s₀ events s)
    (hsource : source.toNat ≤ topo.maxId.toNat) (hstarts : StartsTimer args.nodeOpts source.toNat)
    (hhops : Hops topo source v d) (hlimit : 4200000 * d + 1500999 ≤ limit)
    (hroom : limit < (simEschaton args.timeout).toNat)
    (hlate : ∀ e ∈ s.world.pending, limit < e.vtime.toNat) :
    ∃ node, s.nodes[v.toNat]? = some node ∧ node.status ≠ .asleep ∧ node.status ≠ .waking := by
  obtain ⟨hsound, hwave⟩ := wakeWave_run hstart htopo (caller_start hstart htopo hsource hstarts)
    (hlimit.trans_lt hroom) hrun
  have hv : v.toNat ≤ topo.maxId.toNat := by
    cases hhops with
    | nil => exact hsource
    | snoc _ hlink => exact hlink.le_maxId.2
  obtain ⟨node, hnode, -⟩ := hsound.2.exists_node hv
  refine ⟨node, hnode, ?_⟩
  rcases hwave.first_le hsound.2 (fun f hf => Nat.succ_le_of_lt (hlate f hf)) hhops le_rfl hnode
    with hcalls | ⟨hle, -⟩
  · exact hcalls
  · exact absurd (hle.trans hlimit) (Nat.not_succ_le_self limit)

/-- In every run, once all that is to come is due more than 1.500999 seconds and 4.2 seconds a link
after the start, or nothing is to come, a node at the end of a walk from one that does not sleep
from the start is awake, if `Eschaton` is later than that. -/
theorem wakes_within_hops {F : Type} (ops : FloatOps F) {args : SimArgs}
    {tape : Nat → Fin randRange} {uninit : Nat → List UInt8} {topo : Topo} {s₀ s : Sim}
    {events : List QueueEvent} {source v : NodeId} {d : Nat}
    (hstart : simStart args tape uninit = .ok s₀) (htopo : topoRead args.links = .ok topo)
    (hrun : Run (SimStep ops) s₀ events s) (hexists : source.toNat ≤ topo.maxId.toNat)
    (hstarts : StartsTimer args.nodeOpts source.toNat) (hhops : Hops topo source v d)
    (hroom : 4200000 * d + 1500999 < (simEschaton args.timeout).toNat)
    (hlate : ∀ e ∈ s.world.pending, 4200000 * d + 1500999 < e.vtime.toNat) :
    ∃ node, s.nodes[v.toNat]? = some node ∧ node.status ≠ .asleep ∧ node.status ≠ .waking :=
  WakeWave.awake hstart htopo hrun hexists hstarts hhops le_rfl hroom hlate

/-- A node that hears the root, for six seconds. -/
def oneLink : SimArgs where
  links := [{ src := 0, dst := 1, prob := 0 }]
  timeout := some 6
  dims := some 1
  nodeOpts := ['R']

theorem wakes_within_hops_oneLink :
    ∃ s, SimReachable integerOps oneLink (fun _ => 2147483647) (fun _ => []) s ∧
      s.world.pending = 0 ∧
      ∃ node, s.nodes[(1 : NodeId).toNat]? = some node ∧ node.status ≠ .asleep ∧
        node.status ≠ .waking := by
  have hrun : (do
      let s ← simStart oneLink (fun _ => 2147483647) fun _ => []
      let r ← simRun integerOps (fun _ _ => true) 20 s
      return simEnds integerOps r.2) = (Except.ok true : Except Abort _) := by decide +kernel
  obtain ⟨s₀, hstart, hrun⟩ := bind_eq_ok hrun
  obtain ⟨⟨events, s⟩, hevents, hends⟩ := bind_eq_ok hrun
  have hsteps : Run (SimStep integerOps) s₀ events s :=
    (simRun_run integerOps hevents).mono fun _ _ _ h => h.1
  have hreach : SimReachable integerOps oneLink (fun _ => 2147483647) (fun _ => []) s :=
    ⟨s₀, events, hstart, hsteps⟩
  have hzero := pending_of_simStep_none hreach.due (simStep_of_simEnds (Except.ok.inj hends))
  obtain ⟨topo, htopo, -⟩ := soundSim_start hstart
  have hlink : topo.Link 0 1 := ((topoRead_valid htopo).2 0 1).mpr
    ⟨by decide, _, List.mem_singleton_self _, rfl, rfl⟩
  have hnone : ∀ e ∈ s.world.pending, 4200000 * (0 + 1) + 1500999 < e.vtime.toNat := by
    rw [hzero]
    exact fun e he => absurd he (Multiset.notMem_zero e)
  exact ⟨s, hreach, hzero, wakes_within_hops integerOps hstart htopo hsteps (Nat.zero_le _)
    (Or.inl ⟨by decide, rfl⟩) (.snoc .nil hlink) (by decide) hnone⟩

end OldRadio.Second
