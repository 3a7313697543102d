import OldRadio.Second.WakeTimes

/-!
# Sleeping and waking

The statuses of a node over a run. It sleeps until a beacon of a node that is
not waking reaches it, is waking for at least `NODE_WAKEUP_PERIOD`, and is awake
from then on. A node that sleeps has heard of nobody, has no timer, and has sent
nothing.
-/

namespace OldRadio.Second

open Library
open Node (M)

/-- The status of node `i`, if there is such a node. -/
def Sim.statusOf (s : Sim) (i : Nat) : Option NodeStatus := s.nodes[i]?.map Node.status

section Cycle

variable {F : Type} {ops : FloatOps F} {s₀ s s' : Sim} {events : List QueueEvent}
  {e e₁ : QueueEvent} {i : Nat}

/-- Event `e` of a run was the one in which node `i` began to wake. -/
def WokenBy (ops : FloatOps F) (s₀ : Sim) (events : List QueueEvent) (s : Sim) (i : Nat)
    (e : QueueEvent) : Prop :=
  ∃ before s₁ s₂ after, events = before ++ e :: after ∧ Run (SimStep ops) s₀ before s₁ ∧
    SimStep ops s₁ e s₂ ∧ Run (SimStep ops) s₂ after s ∧
    s₁.statusOf i = some .asleep ∧ s₂.statusOf i = some .waking

/-- How event `e`, next after a run, changes the status of node `i`. -/
inductive StatusCycle (ops : FloatOps F) (s₀ : Sim) (events : List QueueEvent) (s : Sim)
    (e : QueueEvent) (s' : Sim) (i : Nat) : Prop where
  /-- It does not. -/
  | same (status_eq : s'.statusOf i = s.statusOf i)
  /-- The node is asleep, and the event hands it a beacon of a node that is not waking. -/
  | wakes {ptr : Nat} {p : Packet} (asleep : s.statusOf i = some .asleep)
    (waking : s'.statusOf i = some .waking) (node_eq : e.node = some i)
    (packet_eq : e.packet = some ptr) (found : s.world.heap[ptr]? = some p)
    (beacon : p.data.headD 0 = packetTypeBeacon)
    (status_ne : p.data.getD 1 0 ≠ NodeStatus.waking.toByte)
  /-- The node is waking, and the event comes `NODE_WAKEUP_PERIOD` after the one that woke it, at
  the earliest. -/
  | awakes (waking : s.statusOf i = some .waking) (awake : s'.statusOf i = some .awake)
    (node_eq : e.node = some i) (woken : ∃ e₁, WokenBy ops s₀ events s i e₁)
    (period : ∀ e₁, WokenBy ops s₀ events s i e₁ →
      e₁.vtime.toNat + nodeWakeupPeriod ≤ e.vtime.toNat)

theorem Sim.statusOf_eq_some {status : NodeStatus} :
    s.statusOf i = some status ↔ ∃ node, s.nodes[i]? = some node ∧ node.status = status :=
  Option.map_eq_some_iff

theorem Sim.statusOf_of_node {node : Node} (h : s.nodes[i]? = some node) :
    s.statusOf i = some node.status := by
  rw [Sim.statusOf, h, Option.map_some]

theorem WokenBy.snoc (h : WokenBy ops s₀ events s i e₁) (hstep : SimStep ops s e s') :
    WokenBy ops s₀ (events ++ [e]) s' i e₁ := by
  obtain ⟨before, s₁, s₂, after, rfl, hbefore, hwoken, hafter, hasleep, hwaking⟩ := h
  refine ⟨before, s₁, s₂, after ++ [e], ?_, hbefore, hwoken, hafter.snoc hstep, hasleep, hwaking⟩
  rw [List.append_assoc, List.cons_append]

/-- Node `i` does not sleep, and if it is waking then until `limit`. -/
def WakingUntil (i limit : Nat) (s : Sim) : Prop :=
  ∀ node, s.nodes[i]? = some node → node.status ≠ .asleep ∧
    (node.status = .waking → node.wakeTime.toNat = limit)

section Turn

variable {node node' : Node} {queue : EventQueue} {tested : World SimFront}
  (h : EventTurn ops s e node node' s' queue tested)
include h

theorem EventTurn.node_other (hne : i ≠ node.id.toNat) : s'.nodes[i]? = s.nodes[i]? := by
  rw [h.nodes_eq, List.getElem?_set_ne hne.symm]

theorem WakingUntil.turn {limit : Nat} (huntil : WakingUntil i limit s) :
    WakingUntil i limit s' := by
  intro x hx
  rcases h.lookup hx with ⟨rfl, rfl⟩ | ⟨-, hx⟩
  · obtain ⟨hawake, hlimit⟩ := huntil node h.node_eq
    refine ⟨fun hasleep => hawake (h.statusMove.stays_asleep hasleep), fun hwaking => ?_⟩
    rw [h.wakeTime_eq hawake]
    cases h.statusMove with
    | same hstatus => exact hlimit (hstatus.symm.trans hwaking)
    | wakes hasleep => exact absurd hasleep hawake
    | awakes _ hafter =>
      rw [hafter] at hwaking
      cases hwaking
  · exact huntil x hx

/-- The turn in which a node begins to wake sets the time at which waking ends. -/
theorem SimReachable.wakingUntil {args : SimArgs} {tape : Nat → Fin randRange}
    {uninit : Nat → List UInt8} (hreach : SimReachable ops args tape uninit s)
    (hbefore : s.statusOf i = some .asleep) (hafter : s'.statusOf i = some .waking) :
    WakingUntil i (e.vtime.toNat + nodeWakeupPeriod) s' := by
  obtain ⟨x, hx, hasleep⟩ := Sim.statusOf_eq_some.mp hbefore
  obtain ⟨x', hx', hwaking⟩ := Sim.statusOf_eq_some.mp hafter
  intro y hy
  cases hy.symm.trans hx'
  refine ⟨by rw [hwaking]; decide, fun _ => ?_⟩
  rcases h.lookup hx' with ⟨rfl, rfl⟩ | ⟨-, hx'⟩
  · cases hx.symm.trans h.node_eq
    cases h.statusMove with
    | same hstatus =>
      rw [hwaking, hasleep] at hstatus
      cases hstatus
    | wakes _ _ hptr hp hcall =>
      rw [h.wakeTime_woken hptr hp (Node.wakesOn_of_call hasleep hcall)]
      exact toNat_wakeTimeAfter (hreach.wakes_early h hasleep hptr hp hcall)
    | awakes hbefore =>
      rw [hasleep] at hbefore
      cases hbefore
  · cases hx.symm.trans hx'
    rw [hasleep] at hwaking
    cases hwaking

end Turn

end Cycle

section Runs

variable {F : Type} {ops : FloatOps F} {args : SimArgs} {tape : Nat → Fin randRange}
  {uninit : Nat → List UInt8} {s₀ s : Sim} {events : List QueueEvent} {e : QueueEvent} {i : Nat}

/-- A node is waking until `NODE_WAKEUP_PERIOD` after the event that woke it. -/
theorem WokenBy.wakingUntil (hstart : simStart args tape uninit = .ok s₀)
    (h : WokenBy ops s₀ events s i e) :
    WakingUntil i (e.vtime.toNat + nodeWakeupPeriod) s := by
  obtain ⟨before, s₁, s₂, after, -, hbefore, hwoken, hafter, hasleep, hwaking⟩ := h
  have hreach : SimReachable ops args tape uninit s₁ := ⟨s₀, before, hstart, hbefore⟩
  obtain ⟨topo, -, hsound⟩ := soundSim_reachable hreach
  obtain ⟨node, node', queue, tested, hturn⟩ := hwoken.eventTurn hsound
  refine (hafter.keeps (I := fun s => SoundSim topo s ∧
    WakingUntil i (e.vtime.toNat + nodeWakeupPeriod) s) ?_
    ⟨hsound.step hwoken, hreach.wakingUntil hturn hasleep hwaking⟩).2
  rintro s e' s' ⟨hsound, huntil⟩ hstep
  obtain ⟨node, node', queue, tested, hturn⟩ := hstep.eventTurn hsound
  exact ⟨hsound.step hstep, huntil.turn hturn⟩

/-- Every node that is waking was woken. -/
theorem exists_wokenBy (hstart : simStart args tape uninit = .ok s₀)
    (hrun : Run (SimStep ops) s₀ events s) :
    ∀ i, s.statusOf i = some .waking → ∃ e, WokenBy ops s₀ events s i e := by
  obtain ⟨topo, -, hsound⟩ := soundSim_start hstart
  refine (hrun.keeps_labels (I := fun events s => Run (SimStep ops) s₀ events s ∧
    SoundSim topo s ∧ ∀ i, s.statusOf i = some .waking → ∃ e, WokenBy ops s₀ events s i e)
    ?_ ⟨.nil s₀, hsound, fun i hwaking => ?_⟩).2.2
  · rintro done s e s' ⟨hdone, hsound, hwoken⟩ hstep
    refine ⟨hdone.snoc hstep, hsound.step hstep, fun i hwaking => ?_⟩
    obtain ⟨node, node', queue, tested, hturn⟩ := hstep.eventTurn hsound
    have hbefore : s.statusOf i = some .waking ∨ s.statusOf i = some .asleep := by
      obtain ⟨x, hx, hstatus⟩ := Sim.statusOf_eq_some.mp hwaking
      rcases hturn.lookup hx with ⟨rfl, rfl⟩ | ⟨-, hx⟩
      · rw [Sim.statusOf_of_node hturn.node_eq]
        cases hturn.statusMove with
        | same hsame => exact Or.inl (congrArg some (hsame.symm.trans hstatus))
        | wakes hasleep => exact Or.inr (congrArg some hasleep)
        | awakes hbefore => exact Or.inl (congrArg some hbefore)
      · exact Or.inl (Sim.statusOf_eq_some.mpr ⟨x, hx, hstatus⟩)
    rcases hbefore with hbefore | hasleep
    · obtain ⟨e₁, h₁⟩ := hwoken i hbefore
      exact ⟨e₁, h₁.snoc hstep⟩
    · exact ⟨e, done, s, s', [], rfl, hdone, hstep, .nil s', hasleep, hwaking⟩
  · obtain ⟨topo', dims, nodes, world, -, -, hnodes, rfl⟩ := simStart_cases hstart
    obtain ⟨node, hnode, hwaking⟩ := Sim.statusOf_eq_some.mp hwaking
    have hmax : topo'.maxId.toNat + 1 ≤ 2 ^ 16 := Nat.succ_le_of_lt topo'.maxId.toNat_lt
    have hstarts := (wp_startNodes hmax).of_ok hnodes
    exact absurd hwaking (forall₂_range hstarts hnode).2.not_waking

/-- The status of a node changes as it should in the event after any run. -/
theorem statusCycle (hstart : simStart args tape uninit = .ok s₀)
    (hrun : Run (SimStep ops) s₀ events s) {s' : Sim} (hstep : SimStep ops s e s') (i : Nat) :
    StatusCycle ops s₀ events s e s' i := by
  have hreach : SimReachable ops args tape uninit s := ⟨s₀, events, hstart, hrun⟩
  obtain ⟨topo, -, hsound⟩ := soundSim_reachable hreach
  obtain ⟨node, node', queue, tested, hturn⟩ := hstep.eventTurn hsound
  rcases eq_or_ne i node.id.toNat with rfl | hne
  · have hbefore := Sim.statusOf_of_node hturn.node_eq
    have hafter := Sim.statusOf_of_node hturn.node_eq_after
    cases hturn.statusMove with
    | same hstatus => exact .same (by rw [hbefore, hafter, hstatus])
    | wakes hasleep hwaking hptr hp hcall =>
      rw [wakeCall, Bool.and_eq_true, Bool.and_eq_true, beq_iff_eq, bne_iff_ne] at hcall
      exact .wakes (by rw [hbefore, hasleep]) (by rw [hafter, hwaking]) hturn.event hptr hp
        hcall.1.1 hcall.2
    | awakes hwaking hawake _ hdue =>
      rw [hwaking] at hbefore
      refine .awakes hbefore (by rw [hafter, hawake]) hturn.event
        (exists_wokenBy hstart hrun _ hbefore) fun e₁ hwoken => ?_
      rw [← (hwoken.wakingUntil hstart node hturn.node_eq).2 hwaking]
      exact UInt64.le_iff_toNat_le.mp hdue
  · exact .same (by rw [Sim.statusOf, Sim.statusOf, hturn.node_other hne])

/-- Over every run of the simulator nodes sleep, are waking for `NODE_WAKEUP_PERIOD` at least, and
are awake for good. While a node sleeps its table is empty, it has no timer, and it has sent no
packet. -/
theorem nodes_sleep_wake (ops : FloatOps F) (hstart : simStart args tape uninit = .ok s₀)
    (hrun : Run (SimStep ops) s₀ events s) :
    (∀ e s', SimStep ops s e s' → ∀ i, StatusCycle ops s₀ events s e s' i) ∧
      ∃ t, TracedRun ops args tape uninit events t ∧ t.erase = s ∧
        ∀ (i : Nat) (node : Node), s.nodes[i]? = some node → node.status = .asleep →
          node.neighTable = neighTableNew ∧ timers i s.world.pending = 0 ∧
            ∀ b ∈ t.log.sends, b.node.toNat ≠ i := by
  refine ⟨fun e s' hstep i => statusCycle hstart hrun hstep i, ?_⟩
  obtain ⟨t, htraced, rfl⟩ := simRun_traced ops hstart hrun
  refine ⟨t, htraced, rfl, fun i node hnode hasleep => ?_⟩
  obtain ⟨rfl, hsilent⟩ := htraced.sleepersSilent i node hnode
  obtain ⟨htable, htimers, hsends⟩ := hsilent hasleep
  exact ⟨htable, htimers, fun b hb hid => hsends b hb (UInt16.toNat_inj.mp hid)⟩

end Runs

/-- Three nodes in a row, each heard by the next, with a root at one end. -/
def rootChain : SimArgs :=
  { twoNodes with
    links := [{ src := 0, dst := 1, prob := 0 }, { src := 1, dst := 2, prob := 0 }]
    nodeOpts := ['R'] }

/-- The node in the middle wakes after 19294 microseconds, and is awake after 2520588. Till then
the last one sleeps. -/
theorem nodes_sleep_wake_rootChain :
    ∃ s₀ s s' events e, simStart rootChain (fun _ => Fin.last _) (fun _ => []) = .ok s₀ ∧
      Run (SimStep integerOps) s₀ events s ∧ SimStep integerOps s e s' ∧
      e.vtime = 2520588 ∧ s.nodes.map Node.status = [.root, .waking, .asleep] ∧
      s'.nodes.map Node.status = [.root, .awake, .asleep] ∧
      StatusCycle integerOps s₀ events s e s' 1 ∧
      ∃ t, TracedRun integerOps rootChain (fun _ => Fin.last _) (fun _ => []) events t ∧
        t.erase = s ∧ ∀ b ∈ t.log.sends, b.node.toNat ≠ 2 := by
  have hrun : (do
      let s ← simStart rootChain (fun _ => Fin.last _) fun _ => []
      let r ← simRun integerOps (fun _ _ => true) 8 s
      let last ← simRun integerOps (fun _ _ => true) 1 r.2
      return (last.1.map QueueEvent.vtime, r.2.nodes.map Node.status,
        last.2.nodes.map Node.status)) =
        (Except.ok ([2520588], [.root, .waking, .asleep], [.root, .awake, .asleep]) :
          Except Abort _) := by decide +kernel
  obtain ⟨s₀, hstart, hrun⟩ := bind_eq_ok hrun
  obtain ⟨⟨events, s⟩, hevents, hrun⟩ := bind_eq_ok hrun
  obtain ⟨⟨last, s'⟩, hlast, hrun⟩ := bind_eq_ok hrun
  obtain ⟨htimes, hrun⟩ := Prod.mk.inj (Except.ok.inj hrun)
  obtain ⟨hbefore, hafter⟩ := Prod.mk.inj hrun
  have hsteps : Run (SimStep integerOps) s₀ events s :=
    (simRun_run integerOps hevents).mono fun _ _ _ h => h.1
  have hlastStep : Run (SimStep integerOps) s last s' :=
    (simRun_run integerOps hlast).mono fun _ _ _ h => h.1
  obtain ⟨e, rest, rfl, he, hrest⟩ := List.map_eq_cons_iff.mp htimes
  obtain rfl := List.map_eq_nil_iff.mp hrest
  cases hlastStep with
  | cons hstep hnil =>
    cases hnil
    obtain ⟨hcycle, t, htraced, rfl, hsleepers⟩ := nodes_sleep_wake integerOps hstart hsteps
    obtain ⟨node, hnode, hasleep⟩ : ∃ node, t.erase.nodes[2]? = some node ∧
        node.status = .asleep := by
      rw [← Option.map_eq_some_iff, ← List.getElem?_map]
      exact congrArg (fun statuses => statuses[2]?) hbefore
    exact ⟨s₀, t.erase, s', events, e, hstart, hsteps, hstep, he, hbefore, hafter,
      hcycle e s' hstep 1, t, htraced, rfl, (hsleepers 2 node hnode hasleep).2.2⟩

end OldRadio.Second
