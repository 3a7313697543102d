import OldRadio.Second.SimLogs
import OldRadio.Second.SimTimers

/-!
# No node goes silent

A node that is not asleep has a timer to come: whatever changes its status asks
for one, and so does every timer event, on all of its paths. The only way to
lose a timer is `Eschaton`. So the simulator is run with a log of the requests
that were dropped, and every node that takes part has a timer in the queue or a
request in this log.
-/

namespace OldRadio.Second

open Library
open Node (M)

/-- A timer request that `sim_callback` dropped. -/
structure DroppedTimer where
  /-- The node that asked. -/
  node : NodeId
  /-- When the timer would have been due. -/
  due : VTime
  deriving DecidableEq, Repr

/-- `sim_callback` with the log: a request that is due at `Eschaton` or later is written down. -/
def droppingCallback : NodeCallback (Logged (List DroppedTimer)) := fun id vtime packet? extra =>
  match packet? with
  | some ptr => besideLog (simCallback id vtime (some ptr) extra)
  | none => do
    let vtime ← besideLog (simTimerDelay vtime)
    let w ← get
    if vtime < w.front.sim.eschaton then
      besideLog (simInsert { vtime, node := some id.toNat, packet := none, extra })
    else writeLog fun dropped => dropped ++ [{ node := id, due := vtime }]

/-- The simulator with the log of dropped requests. -/
def droppedTimers : Logger (List DroppedTimer) where
  callback := droppingCallback
  projects id vtime packet? extra := by
    cases packet? with
    | some ptr => exact projects_besideLog _
    | none =>
      refine (projects_besideLog _).bind fun due => Projects.get_bind fun w => ?_
      exact (projects_besideLog _).ite (projects_modify fun _ => rfl)
  beforeTest _ _ dropped := dropped
  beforeEvent _ dropped := dropped

/-- Node `j` has a timer to come, or a request of it was dropped because of `Eschaton`. -/
def Served (j : NodeId) (w : World (Logged (List DroppedTimer))) : Prop :=
  0 < timers j.toNat w.front.sim.queue.pending ∨
    ∃ d ∈ w.front.log, d.node = j ∧ w.front.sim.eschaton ≤ d.due

section Callback

variable {id j : NodeId} {vtime : VTime} {w : World (Logged (List DroppedTimer))}

/-- An event that is added takes no timer away, and serves the node whose timer it is. -/
theorem Served.cons {w' : World (Logged (List DroppedTimer))} {e : QueueEvent}
    (h : (e.packet = none ∧ e.node = some j.toNat) ∨ Served j w)
    (hpending : w'.front.sim.queue.pending = e ::ₘ w.front.sim.queue.pending)
    (hlog : w'.front.log = w.front.log)
    (heschaton : w'.front.sim.eschaton = w.front.sim.eschaton) : Served j w' := by
  rw [Served, hpending, hlog, heschaton, timers_cons]
  rcases h with hown | h | h
  · rw [if_pos hown]
    exact Or.inl (Nat.succ_pos _)
  · exact Or.inl (Nat.add_pos_left h _)
  · exact Or.inr h

/-- A request serves its node, and takes nothing from the others. -/
theorem wp_droppingCallback_timer {extra : Option Nat} (h : id = j ∨ Served j w) :
    Wp (droppingCallback id vtime none extra) (fun _ => Served j) (fun _ => True) w := by
  rw [droppingCallback, wp_bind, wp_besideLog, simTimerDelay, wp_bind, wp_rand, wp_pure, wp_bind,
    wp_get]
  split
  · rw [wp_besideLog]
    refine wp_simInsert trivial fun queue hqueue => ?_
    exact Served.cons (h.imp_left fun h => ⟨rfl, by rw [h]⟩) hqueue rfl rfl
  · rename_i hlate
    rw [wp_writeLog]
    rcases h with rfl | h | ⟨d, hd, hnode⟩
    · refine Or.inr ⟨_, List.mem_append_right _ (List.mem_singleton_self _), rfl, ?_⟩
      exact VTime.le_of_not_lt hlate
    · exact Or.inl h
    · exact Or.inr ⟨d, List.mem_append_left _ hd, hnode⟩

/-- Node code takes nothing from a node that is served. -/
theorem served_keptTimer :
    KeptTimer droppingCallback id vtime (fun _ => True) (fun _ => True) (Served j) where
  skip _ h := h
  push _ _ _ h := h
  poke _ _ _ _ _ h := h
  send w ptr p hp _ h := by
    have hdelivers : Delivers id vtime (fun _ => True)
        fun w' => Served j (w'.mapFront fun sim => { w.front with sim }) :=
      { skip := fun _ h => h
        push := fun _ _ _ h => h
        poke := fun _ _ _ _ _ h => h
        deliver := fun _ _ _ _ _ _ _ _ _ hqueue h => Served.cons (Or.inr h) hqueue rfl rfl }
    rw [droppingCallback, wp_besideLog]
    exact hdelivers.wp_send trivial trivial hp trivial h
  freed := trivial
  full := trivial
  bounds := trivial
  timer _ _ _ _ h := wp_droppingCallback_timer (Or.inr h)

end Callback

/-! ## One event -/

section Event

variable {F : Type} {ops : FloatOps F} {node : Node} {vtime : VTime}
  {w : World (Logged (List DroppedTimer))}

/-- Every timer event serves its node, whatever happened to the timers before. -/
theorem wp_nodeTimer_served {extra : Option Nat} :
    Wp (nodeTimer ops droppingCallback node vtime extra) (fun _ => Served node.id)
      (fun _ => True) w := by
  rw [nodeTimer, wp_bind]
  refine (wp_nodeTimerStatus trivial (wp_true _ _)).imp
    fun node₁ w₁ h₁ => wp_nodeRearm fun virtloc _ => ?_
  obtain ⟨⟨status, rfl, -⟩, -⟩ := h₁
  refine (wp_true _ _).imp fun _ w₂ _ => ?_
  exact wp_droppingCallback_timer (Or.inl rfl)

/-- A node that wakes is served. -/
theorem wp_nodeReceive_served {ptr : Nat} {packet : Packet} (hp : w.heap[ptr]? = some packet)
    (hwakes : node.wakesOn packet = true) :
    Wp (nodeReceive droppingCallback node vtime ptr) (fun _ => Served node.id)
      (fun _ => True) w := by
  refine wp_nodeReceive_wake hp hwakes (fun _ => trivial) fun neighs loc hparse => ?_
  refine wp_nodeWake ((wp_true _ _).imp fun _ w₁ _ virtloc _ => ?_)
  refine (wp_droppingCallback_timer (Or.inl rfl)).imp fun _ w₂ hserved => ?_
  exact wp_nodeRecord _ _ (beaconParse_ne_nil hparse) (fun _ => trivial) fun _ _ => hserved

/-- Handling an event takes nothing from a node that is served, and a timer event serves its
node. -/
theorem wp_handle_served {e : QueueEvent} {j : NodeId}
    (h : e.packet = none ∧ node.id = j ∨ Served j w) :
    Wp (droppedTimers.handle ops node e) (fun _ => Served j) (fun _ => True) w := by
  have hkept : KeptTimer droppingCallback node.id e.vtime (fun _ => True) (fun _ => True)
      (Served j) := served_keptTimer
  cases hptr : e.packet with
  | none =>
    rw [Logger.wp_handle_timer hptr]
    rcases h with ⟨-, rfl⟩ | h
    · exact wp_nodeTimer_served
    · exact hkept.keptNewTimer.keeps_nodeTimer (fun _ _ => trivial) e.extra _ h
  | some ptr =>
    have h := h.resolve_left fun h => by cases hptr.symm.trans h.1
    rw [Logger.wp_handle_packet hptr]
    refine wp_nodeReceive_read trivial fun packet hp => ?_
    refine (hkept.wp_nodeReceive (fun _ _ => trivial) hp (fun _ _ _ => trivial)
      (fun _ _ => trivial) (fun _ => ⟨trivial, fun _ => trivial⟩) h).imp fun node' w' hw' => ?_
    exact hkept.toKept.keeps_packetFree ptr w' hw'

/-- A node that does not sleep after an event is served, if it was before. -/
theorem wp_handle_served_self {e : QueueEvent}
    (h : e.packet ≠ none → node.status ≠ .asleep → Served node.id w) :
    Wp (droppedTimers.handle ops node e)
      (fun node' w' => node'.id = node.id ∧ (node'.status ≠ .asleep → Served node.id w'))
      (fun _ => True) w := by
  have hkept : KeptTimer droppingCallback node.id e.vtime (fun _ => True) (fun _ => True)
      (Served node.id) := served_keptTimer
  cases hptr : e.packet with
  | none =>
    rw [Logger.wp_handle_timer hptr]
    refine (wp_nodeTimer_node.and wp_nodeTimer_served).mono ?_ fun _ _ => trivial
    exact fun node' w' hw' => ⟨hw'.1.id_eq, fun _ => hw'.2⟩
  | some ptr =>
    have h := h (by rw [hptr]; exact Option.some_ne_none ptr)
    rw [Logger.wp_handle_packet hptr]
    refine wp_nodeReceive_read trivial fun packet hp => ?_
    have hserved : Wp (nodeReceive droppingCallback node e.vtime ptr)
        (fun _ w' => node.wakesOn packet = true ∨ node.status ≠ .asleep → Served node.id w')
        (fun _ => True) w := by
      cases hwakes : node.wakesOn packet with
      | true => exact (wp_nodeReceive_served hp hwakes).imp fun _ _ hw' _ => hw'
      | false =>
        by_cases hasleep : node.status = .asleep
        · exact (wp_true _ _).imp fun _ _ _ hor => absurd hasleep (hor.resolve_left (by decide))
        · refine (hkept.wp_nodeReceive (fun _ _ => trivial) hp (fun _ _ _ => trivial)
            (fun _ _ => trivial) (fun _ => ⟨trivial, fun _ => trivial⟩) (h hasleep)).imp ?_
          exact fun _ _ hw' _ => hw'
    refine ((wp_nodeReceive_node hp).and hserved).mono (fun node' w' hw' => ?_) fun _ _ => trivial
    obtain ⟨hreceived, hw'⟩ := hw'
    have hor : node'.status ≠ .asleep → Served node.id w' := fun hawake => by
      rw [hreceived.status_eq] at hawake
      split at hawake
      · rename_i hwakes
        exact hw' (Or.inl hwakes)
      · exact hw' (Or.inr hawake)
    rw [packetFree, wp_bind]
    exact wp_packetRead trivial fun _ _ => ⟨hreceived.id_eq, hor⟩

end Event

/-! ## Every run -/

/-- Every node that does not sleep is served. -/
def AllServed (t : LoggedSim (List DroppedTimer)) : Prop :=
  ∀ i (node : Node), t.nodes[i]? = some node →
    node.id.toNat = i ∧ (node.status ≠ .asleep → Served node.id t.world)

section Runs

variable {F : Type} {ops : FloatOps F} {t t' : LoggedSim (List DroppedTimer)} {e : QueueEvent}

/-- An event that is no timer of a node leaves the queue without a loss for the node. -/
theorem Served.pop {j : NodeId} {queue : EventQueue} (h : Served j t.world)
    (hpending : t.world.front.pending = e ::ₘ queue.pending)
    (hother : ¬ (e.packet = none ∧ e.node = some j.toNat)) :
    Served j (t.world.setFront (t.world.front.setQueue queue)) := by
  have htimers : timers j.toNat t.world.front.sim.queue.pending =
      timers j.toNat queue.pending := by
    change timers _ t.world.front.pending = _
    rw [hpending, timers_cons, if_neg hother, Nat.add_zero]
  rw [Served, htimers] at h
  exact h

theorem AllServed.step (h : AllServed t) (hstep : droppedTimers.Step ops t e t') :
    AllServed t' := by
  obtain ⟨queue, tested, world, vtimeTick, i, node, node', hpending, htick, hi, hnode, hhandle,
    rfl⟩ := hstep.turn.ran
  obtain ⟨hid, hserved⟩ := h i node hnode
  have htested : ∀ j : NodeId, Served j t.world →
      ¬ (e.packet = none ∧ e.node = some j.toNat) → Served j tested := fun j hj hother => by
    have hkeeps : Keeps (Served j) (fun _ => True)
        (droppedTimers.tick t.ticks t.nodes e.vtime t.vtimeTick) :=
      Logger.keeps_tick (fun _ _ => trivial) (fun _ _ _ hw => hw) fun node _ =>
        KeptNew.keeps_nodeRouteTest (fun _ _ => trivial) served_keptTimer.toKept.keptNew
    exact (hkeeps _ (hj.pop hpending hother)).of_ok htick
  have hself := (wp_handle_served_self fun hpacket hawake =>
    htested node.id (hserved hawake) fun hown => hpacket hown.1).of_ok hhandle
  refine forall_set (fun j node₁ hnode₁ => ?_) ⟨by rw [hself.1, hid], ?_⟩
  · obtain ⟨hid₁, hserved₁⟩ := h j node₁ hnode₁
    refine ⟨hid₁, fun hawake => (wp_handle_served ?_).of_ok hhandle⟩
    by_cases hown : e.packet = none ∧ e.node = some node₁.id.toNat
    · have hij : node.id = node₁.id := by
        rw [← UInt16.toNat_inj, hid]
        exact Option.some.inj (hi.symm.trans hown.2)
      exact Or.inl ⟨hown.1, hij⟩
    · exact Or.inr (htested node₁.id (hserved₁ hawake) hown)
  · rw [hself.1]
    exact hself.2

end Runs

theorem allServed_start {args : SimArgs} {tape : Nat → Fin randRange} {uninit : Nat → List UInt8}
    {t : LoggedSim (List DroppedTimer)} (h : droppedTimers.start [] args tape uninit = .ok t) :
    AllServed t := by
  obtain ⟨topo, dims, nodes, world, -, hnodes, rfl⟩ := Logger.start_cases h
  have hmax : topo.maxId.toNat + 1 ≤ 2 ^ 16 := Nat.succ_le_of_lt topo.maxId.toNat_lt
  intro j node hnode
  obtain ⟨hid, hserved⟩ := (wp_nodeInits (j := j) hmax
    (fun _ => served_keptTimer.keptNewTimer)
    fun delay _ w => wp_droppingCallback_timer (Or.inl rfl)).of_ok hnodes node hnode
  refine ⟨hid, fun hawake => ?_⟩
  rw [show node.id = UInt16.ofNat j by rw [← hid, UInt16.ofNat_toNat]]
  exact hserved hawake

/-- In every state of every run, a node that does not sleep has a timer in the queue, or a request
of it was dropped because it was due at `Eschaton` or later. -/
theorem node_has_timer {F : Type} (ops : FloatOps F) {args : SimArgs}
    {tape : Nat → Fin randRange} {uninit : Nat → List UInt8} {s₀ s : Sim}
    {events : List QueueEvent} (hstart : simStart args tape uninit = .ok s₀)
    (hrun : Run (SimStep ops) s₀ events s) :
    ∃ t, droppedTimers.Runs ops [] args tape uninit events t ∧ t.erase = s ∧
      ∀ i (node : Node), s.nodes[i]? = some node → node.status ≠ .asleep →
        0 < timers i s.world.pending ∨
          ∃ d ∈ t.log, d.node = node.id ∧ s.world.front.eschaton ≤ d.due := by
  obtain ⟨t, hlogged, rfl⟩ := simRun_logged droppedTimers [] hstart hrun
  obtain ⟨t₀, hstart', hrun'⟩ := hlogged
  have hall : AllServed t :=
    hrun'.keeps (fun _ _ _ h hstep => h.step hstep) (allServed_start hstart')
  refine ⟨t, ⟨t₀, hstart', hrun'⟩, rfl, fun i node hnode hawake => ?_⟩
  obtain ⟨rfl, hserved⟩ := hall i node hnode
  exact hserved hawake

/-- Half a second into a run of one second, the root has no timer left: its last request was
dropped. The other node has just been woken and has one. -/
theorem node_has_timer_oneSecond :
    ∃ s₀ s events, simStart (rootAndSleeper (some 1)) (fun _ => 0) (fun _ => []) = .ok s₀ ∧
      Run (SimStep integerOps) s₀ events s ∧ events.map QueueEvent.vtime = [0, 18000, 500000] ∧
      s.nodes.map Node.status = [.root, .waking] ∧ timers 0 s.world.pending = 0 ∧
      timers 1 s.world.pending = 1 ∧
      ∃ t, droppedTimers.Runs integerOps [] (rootAndSleeper (some 1)) (fun _ => 0) (fun _ => [])
          events t ∧ t.erase = s ∧
        ∀ i (node : Node), s.nodes[i]? = some node → node.status ≠ .asleep →
          0 < timers i s.world.pending ∨
            ∃ d ∈ t.log, d.node = node.id ∧ s.world.front.eschaton ≤ d.due := by
  have hrun : (do
      let s ← simStart (rootAndSleeper (some 1)) (fun _ => 0) fun _ => []
      let r ← simRun integerOps (fun _ _ => true) 3 s
      return (r.1.map QueueEvent.vtime, r.2.nodes.map Node.status, timers 0 r.2.world.pending,
        timers 1 r.2.world.pending)) =
        (Except.ok ([0, 18000, 500000], [.root, .waking], 0, 1) : Except Abort _) := by
    decide +kernel
  obtain ⟨s₀, hstart, hrun⟩ := bind_eq_ok hrun
  obtain ⟨⟨events, s⟩, hevents, hrun⟩ := bind_eq_ok hrun
  have hsteps : Run (SimStep integerOps) s₀ events s :=
    (simRun_run integerOps hevents).mono fun _ _ _ h => h.1
  obtain ⟨htimes, hrun⟩ := Prod.mk.inj (Except.ok.inj hrun)
  obtain ⟨hstatus, hrun⟩ := Prod.mk.inj hrun
  obtain ⟨hroot, hother⟩ := Prod.mk.inj hrun
  exact ⟨s₀, s, events, hstart, hsteps, htimes, hstatus, hroot, hother,
    node_has_timer integerOps hstart hsteps⟩

end OldRadio.Second
