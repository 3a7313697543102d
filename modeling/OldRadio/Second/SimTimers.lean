import OldRadio.Second.SimDraws
import OldRadio.Second.SimNeighbours

/-!
# Beacon timers

A node that handles a timer event asks for its next timer. Waking up asks for
two timers, and so does the timer event that ends a node's waking, so that from
then on the node runs two chains of beacons. Where one of the two is due at
`Eschaton` or later it is dropped, and a node has one timer at most.
-/

namespace OldRadio.Second

open Library
open Node (M)

/-- Number of timers of node `i` among some events. -/
def timers (i : Nat) (pending : Multiset QueueEvent) : Nat :=
  pending.countP fun e => e.packet = none ∧ e.node = some i

theorem timers_cons (i : Nat) (e : QueueEvent) (pending : Multiset QueueEvent) :
    timers i (e ::ₘ pending) =
      timers i pending + if e.packet = none ∧ e.node = some i then 1 else 0 :=
  Multiset.countP_cons _ _ _

/-- Packet events are no timers. -/
theorem timers_add {new : Multiset QueueEvent} (h : ∀ e ∈ new, e.packet ≠ none) (i : Nat)
    (pending : Multiset QueueEvent) : timers i (new + pending) = timers i pending := by
  have hnew : timers i new = 0 := Multiset.countP_eq_zero.mpr fun e he hp => h e he hp.1
  rw [timers, Multiset.countP_add]
  exact (congrArg (· + timers i pending) hnew).trans (Nat.zero_add _)

/-- From `w` to `w'`, node `id` got `n` more timers and no other node got any. -/
def Asked (id : NodeId) (n : Nat) (w w' : World SimFront) : Prop :=
  ∀ i, timers i w'.pending = timers i w.pending + if i = id.toNat then n else 0

namespace Asked

variable {id : NodeId} {m n : Nat} {w w₁ w₂ : World SimFront}

theorem of_eq (h : w₁.pending = w.pending) : Asked id 0 w w₁ := fun i => by
  rw [h]
  split <;> rfl

theorem trans (h₁ : Asked id m w w₁) (h₂ : Asked id n w₁ w₂) : Asked id (m + n) w w₂ := by
  intro i
  rw [h₂ i, h₁ i]
  split <;> omega

/-- Sending packets asks for no timer. -/
theorem of_sent {vtime : VTime} {length : Nat} (h : Sent vtime length n w w₁) :
    Asked id 0 w w₁ := by
  obtain ⟨new, hpending, hnew⟩ := h.added
  intro i
  rw [hpending, timers_add fun e he => (hnew e he).1]
  split <;> rfl

end Asked

/-- Number of timers that come of a request due at a time. -/
def dueBefore (eschaton due : VTime) : Nat := if due < eschaton then 1 else 0

theorem dueBefore_add_le {eschaton due due' : VTime} (h : ¬ (due < eschaton ∧ due' < eschaton)) :
    dueBefore eschaton due + dueBefore eschaton due' ≤ 1 := by
  unfold dueBefore
  by_cases hdue : due < eschaton
  · rw [if_pos hdue, if_neg fun hdue' => h ⟨hdue, hdue'⟩]
  · rw [if_neg hdue]
    split <;> decide

theorem dueBefore_le (eschaton due : VTime) : dueBefore eschaton due ≤ 1 := by
  unfold dueBefore
  split <;> decide

/-- When a timer asked for at `vtime` with a random delay is due, by the `k`-th next outcome of
`rand` and the one behind it. -/
def randomDue (w : World SimFront) (vtime : VTime) (k : Nat) : VTime :=
  (vtime.after (beaconDelay (w.rand k))).after (w.rand (k + 1) % simTimerDelayFuzz)

/-- When a timer asked for a full period ahead of `vtime` is due, by the `k`-th next outcome. -/
def periodDue (w : World SimFront) (vtime : VTime) (k : Nat) : VTime :=
  (vtime.after nodeBeaconPeriod).after (w.rand k % simTimerDelayFuzz)

/-- Both timers that waking at `vtime` asks for are due before `Eschaton`, when it starts with the
`k`-th next outcome of `rand`. -/
def WakesTwice (w : World SimFront) (vtime : VTime) (k : Nat) : Prop :=
  randomDue w vtime k < w.front.eschaton ∧
    periodDue w vtime (k + (2 + perturbDraws w.dims)) < w.front.eschaton

/-- Number of outcomes of `rand` between the two timers of a node whose waking ends. -/
def awakeDraws {F : Type} (ops : FloatOps F) (w : World SimFront) (node : Node) : Nat :=
  recalcDraws ops w.dims node.virtloc node.neighTable + (topoIter w.front.topo node.id).length

/-- Both timers that the end of waking asks for are due before `Eschaton`, when it starts with the
`k`-th next outcome of `rand`. -/
def RearmsTwice {F : Type} (ops : FloatOps F) (w : World SimFront) (node : Node) (vtime : VTime)
    (k : Nat) : Prop :=
  randomDue w vtime k < w.front.eschaton ∧
    randomDue w vtime (k + (2 + awakeDraws ops w node)) < w.front.eschaton

section Requests

variable {F : Type} {ops : FloatOps F} {id : NodeId} {node : Node} {vtime : VTime}
  {w : World SimFront}

/-- A timer request adds a timer if it is due before `Eschaton`. -/
theorem wp_simCallback_asked {extra : Option Nat} :
    Wp (simCallback id vtime none extra)
      (fun _ w' => After 1 w w' ∧
        Asked id (dueBefore w.front.eschaton (vtime.after (w.rand 0 % simTimerDelayFuzz))) w w')
      (fun _ => True) w := by
  refine wp_simCallback_timer_after.imp fun _ w' h => ⟨h.1, fun i => ?_⟩
  rcases h.2 with ⟨hlt, hpending⟩ | ⟨hge, hpending⟩
  · have hiff : (timerEvent id vtime extra (w.rand 0)).node = some i ↔ i = id.toNat := by
      rw [timerEvent, Option.some.injEq, eq_comm]
    have hdue : vtime.after (w.rand 0 % simTimerDelayFuzz) < w.front.eschaton := hlt
    rw [hpending, timers_cons, dueBefore, if_pos hdue]
    simp only [hiff, true_and, show (timerEvent id vtime extra (w.rand 0)).packet = none from rfl]
  · have hlt : ¬ vtime.after (w.rand 0 % simTimerDelayFuzz) < w.front.eschaton := by
      rw [UInt64.lt_iff_toNat_lt]
      exact Nat.not_lt.mpr (UInt64.le_iff_toNat_le.mp hge)
    rw [hpending, dueBefore, if_neg hlt]
    split <;> rfl

/-- A timer asked for with a random delay uses two outcomes. -/
theorem wp_randomTimer {extra : Option Nat} :
    Wp (simCallback id (vtime.after (beaconDelay (w.rand 0))) none extra)
      (fun _ w' => After 2 w w' ∧ Asked id (dueBefore w.front.eschaton (randomDue w vtime 0)) w w')
      (fun _ => True) (w.skip 1) := by
  refine wp_simCallback_asked.imp fun _ w' h => ⟨(After.skip w 1).trans h.1, ?_⟩
  have hasked := h.2
  rw [World.skip_rand] at hasked
  exact hasked

/-- Waking asks for two timers. -/
theorem wp_nodeWake_asked {loc : Loc} :
    Wp (nodeWake simCallback node vtime loc)
      (fun node' w' => node'.status = .waking ∧
        Asked node.id (dueBefore w.front.eschaton (randomDue w vtime 0) +
          dueBefore w.front.eschaton (periodDue w vtime (2 + perturbDraws w.dims))) w w')
      (fun _ => True) w := by
  refine wp_nodeWake (wp_randomTimer.imp fun _ w₁ h₁ virtloc _ => ?_)
  obtain ⟨hafter, hasked₁⟩ := h₁
  refine wp_simCallback_asked.imp fun _ w₂ h₂ => ⟨rfl, hasked₁.trans ?_⟩
  have hasked₂ := h₂.2
  rw [World.skip_rand, Nat.add_zero, hafter.rand, hafter.dims_eq, World.skip_front,
    hafter.eschaton_eq] at hasked₂
  exact hasked₂

/-- The part of a timer event behind the change of status asks for one timer. -/
theorem wp_nodeRearm_asked {extra : Option Nat} :
    Wp (do
      let node ← nodeVirtlocRecalc ops node
      nodeSendBeacon simCallback node vtime
      let r ← rand
      simCallback node.id (vtime.after (beaconDelay r)) none extra
      return node)
      (fun node' w' => node'.status = node.status ∧
        Asked node.id (dueBefore w.front.eschaton (randomDue w vtime (awakeDraws ops w node))) w w')
      (fun _ => True) w := by
  refine wp_nodeRearm fun virtloc _ => ?_
  refine (wp_sendNew_sent (beaconData_ne_nil { node with virtloc })).imp fun _ w₁ h₁ => ?_
  refine wp_randomTimer.imp fun _ w₂ h₂ => ⟨rfl, ?_⟩
  have hafter := (After.skip w (recalcDraws ops w.dims node.virtloc node.neighTable)).trans h₁.after
  have hsent : Asked node.id 0 _ _ := .of_sent h₁
  have hasked := hsent.trans h₂.2
  rw [Nat.zero_add, randomDue, hafter.rand, hafter.rand, hafter.eschaton_eq] at hasked
  exact hasked

end Requests

/-! ## One turn -/

section Turn

variable {F : Type} (ops : FloatOps F)

/-- An event does not make its node ask for two timers that are both due before `Eschaton`, when
handling it starts with the `k`-th next outcome of `rand`. -/
def AsksOnce (w : World SimFront) (node : Node) (e : QueueEvent) (k : Nat) : Prop :=
  match e.packet with
  | some ptr => ∀ packet ∈ w.heap[ptr]?, node.wakesOn packet = true → ¬ WakesTwice w e.vtime k
  | none => node.status = .waking ∧ node.wakeTime ≤ e.vtime → ¬ RearmsTwice ops w node e.vtime k

instance (w : World SimFront) (node : Node) (e : QueueEvent) (k : Nat) :
    Decidable (AsksOnce ops w node e k) := by
  unfold AsksOnce WakesTwice RearmsTwice
  cases e.packet with
  | some ptr =>
    cases w.heap[ptr]? <;> exact inferInstance
  | none => exact inferInstance

/-- The event of a turn does not make its node ask for two timers. The route tests of the tick come
first. -/
def TurnAsksOnce (s : Sim) (e : QueueEvent) : Prop :=
  ∀ i ∈ e.node, ∀ node ∈ s.nodes[i]?, AsksOnce ops s.world node e (tickDraws s e.vtime)

instance (s : Sim) (e : QueueEvent) : Decidable (TurnAsksOnce ops s e) := by
  unfold TurnAsksOnce
  infer_instance

variable {ops}

/-- What an event makes its node ask for may be told before other work is done. -/
theorem AsksOnce.after {n : Nat} {w w' : World SimFront} {node : Node} {e : QueueEvent}
    (h : AsksOnce ops w node e n) (hafter : After n w w')
    (hheld : ∀ ptr, e.packet = some ptr → ∃ packet, w.heap[ptr]? = some packet) :
    AsksOnce ops w' node e 0 := by
  have hrandom : ∀ k, randomDue w' e.vtime k = randomDue w e.vtime (n + k) := fun k => by
    rw [randomDue, randomDue, hafter.rand, hafter.rand, Nat.add_assoc]
  unfold AsksOnce at h ⊢
  cases hptr : e.packet with
  | some ptr =>
    rw [hptr] at h
    obtain ⟨packet, hpacket⟩ := hheld ptr hptr
    obtain ⟨packet', hpacket', hdata⟩ := hafter.heap ptr packet hpacket
    intro p hp hwakes
    obtain rfl : p = packet' := Option.some.inj (hp.symm.trans hpacket')
    rw [Node.wakesOn, hdata] at hwakes
    have hnot := h packet hpacket hwakes
    unfold WakesTwice periodDue at hnot ⊢
    rwa [hrandom, hafter.rand, hafter.dims_eq, hafter.eschaton_eq, Nat.zero_add]
  | none =>
    rw [hptr] at h
    intro hdue
    have hnot := h hdue
    unfold RearmsTwice awakeDraws at hnot ⊢
    rwa [hrandom, hrandom, hafter.dims_eq, hafter.topo_eq, hafter.eschaton_eq, Nat.zero_add]

theorem timers_delivers {id : NodeId} {vtime : VTime} {w : World SimFront} (n : NodeId) :
    Delivers id vtime (fun _ => True) (Asked n 0 w) where
  skip _ h := h
  push _ _ _ h := h
  poke _ _ _ _ _ h := h
  deliver _ ptr p t r _ _ _ _ hqueue h := fun i => by
    rw [World.setQueue_pending, hqueue, timers_cons]
    simpa [packetEvent] using h i

section Handle

variable {node : Node} {vtime : VTime} {w : World SimFront}

/-- Receiving a packet asks for no timer, or for one at most when it wakes the node. -/
theorem wp_nodeReceive_asked {ptr : Nat} {packet : Packet} (hpacket : w.heap[ptr]? = some packet)
    (h : node.wakesOn packet = true → ¬ WakesTwice w vtime 0) :
    Wp (nodeReceive simCallback node vtime ptr)
      (fun node' w' => Received node vtime packet node' ∧
        ∃ n ≤ 1, Asked node.id n w w' ∧ (node.wakesOn packet = true ∨ n = 0))
      (fun _ => True) w := by
  have hasked : Wp (nodeReceive simCallback node vtime ptr)
      (fun _ w' => ∃ n ≤ 1, Asked node.id n w w' ∧ (node.wakesOn packet = true ∨ n = 0))
      (fun _ => True) w := by
    cases hwakes : node.wakesOn packet with
    | false =>
      have hkept : Kept simCallback node.id vtime (fun _ => True) (fun _ => True)
          (Asked node.id 0 w) := (timers_delivers node.id).kept
      refine (hkept.wp_nodeReceive (fun _ _ => trivial) hpacket hwakes (fun _ _ _ => trivial)
        (fun _ _ => trivial) (fun _ => ⟨trivial, fun _ => trivial⟩) (Asked.of_eq rfl)).imp ?_
      exact fun _ w' hw' => ⟨0, Nat.zero_le 1, hw', Or.inr rfl⟩
    | true =>
      have hnot := h hwakes
      rw [WakesTwice, Nat.zero_add] at hnot
      refine wp_nodeReceive_wake hpacket hwakes (fun _ => trivial) fun neighs loc hparse => ?_
      refine wp_nodeWake_asked.imp fun node₁ w₁ h₁ => ?_
      refine wp_nodeRecord _ _ (beaconParse_ne_nil hparse) (fun _ => trivial) fun _ _ => ?_
      exact ⟨_, dueBefore_add_le hnot, h₁.2, Or.inl rfl⟩
  exact ((wp_nodeReceive_node hpacket).and hasked).mono (fun _ _ h => h) fun _ _ => trivial

/-- A timer event asks for one timer, or for two when it ends the node's waking. -/
theorem wp_nodeTimer_asked {extra : Option Nat}
    (h : node.status = .waking ∧ node.wakeTime ≤ vtime → ¬ RearmsTwice ops w node vtime 0) :
    Wp (nodeTimer ops simCallback node vtime extra)
      (fun node' w' => (node'.status = .asleep → node.status = .asleep) ∧
        ∃ n ≤ 1, Asked node.id n w w') (fun _ => True) w := by
  rw [nodeTimer, wp_bind]
  by_cases hdue : node.status = .waking ∧ node.wakeTime ≤ vtime
  · have hnot := h hdue
    rw [RearmsTwice, Nat.zero_add] at hnot
    rw [wp_nodeTimerStatus_of_due hdue]
    refine wp_randomTimer.imp fun _ w₁ h₁ => wp_nodeRearm_asked.imp fun node' w₂ h₂ => ?_
    obtain ⟨hafter, hasked₁⟩ := h₁
    obtain ⟨hstatus, hasked₂⟩ := h₂
    refine ⟨fun hasleep => ?_, _, dueBefore_add_le hnot, hasked₁.trans ?_⟩
    · rw [hstatus] at hasleep
      cases hasleep
    · unfold awakeDraws randomDue at hasked₂ ⊢
      rw [hafter.rand, hafter.rand, hafter.dims_eq, hafter.topo_eq, hafter.eschaton_eq] at hasked₂
      exact hasked₂
  · rw [wp_nodeTimerStatus_of_not hdue]
    refine wp_nodeRearm_asked.imp fun node' w₂ h₂ => ?_
    exact ⟨fun hasleep => h₂.1 ▸ hasleep, _, dueBefore_le _ _, h₂.2⟩

/-- Handling an event that asks for one timer at most. -/
theorem wp_simHandle_asked {e : QueueEvent} (h : AsksOnce ops w node e 0)
    (hheld : ∀ ptr, e.packet = some ptr → ∃ packet, w.heap[ptr]? = some packet) :
    Wp (simHandle ops node e)
      (fun node' w' => (node'.status = .asleep → node.status = .asleep) ∧
        ∃ n ≤ 1, Asked node.id n w w' ∧
          (e.packet = none ∨ (node.status = .asleep ∧ node'.status ≠ .asleep) ∨ n = 0))
      (fun _ => True) w := by
  unfold AsksOnce at h
  unfold simHandle
  cases hptr : e.packet with
  | some ptr =>
    rw [hptr] at h
    obtain ⟨packet, hpacket⟩ := hheld ptr hptr
    dsimp only
    rw [wp_bind]
    refine (wp_nodeReceive_asked hpacket (h packet hpacket)).imp fun node' w₁ h₁ => ?_
    obtain ⟨hnode, n, hn, hasked, hwakes⟩ := h₁
    rw [wp_bind]
    refine wp_packetFree_after.imp fun _ w₂ h₂ => ?_
    refine ⟨fun hasleep => (hnode.wakesOn_iff hasleep).1, n, hn, hasked.trans (Asked.of_eq h₂.2),
      Or.inr (hwakes.imp_left fun hwakes => ?_)⟩
    refine ⟨Node.asleep_of_wakesOn hwakes, fun hasleep => ?_⟩
    exact absurd hwakes (Bool.eq_false_iff.mp (hnode.wakesOn_iff hasleep).2)
  | none =>
    rw [hptr] at h
    refine (wp_nodeTimer_asked h).imp fun node' w' hw' => ?_
    obtain ⟨hstays, n, hn, hasked⟩ := hw'
    exact ⟨hstays, n, hn, hasked, Or.inl rfl⟩

end Handle

/-- What a turn did to the timers when its event asked for one at most. -/
structure AskedTurn (s : Sim) (e : QueueEvent) (i : Nat) (node node' : Node) (n : Nat) (s' : Sim) :
    Prop where
  /-- The event was for node `i`. -/
  node_eq : s.nodes[i]? = some node
  /-- Only that node changed. -/
  nodes_eq : s'.nodes = s.nodes.set i node'
  /-- It asked for one timer at most. -/
  le_one : n ≤ 1
  /-- The timer of the event is gone, and what its node asked for is there. -/
  timers_eq : ∀ j, timers j s'.world.pending + (if e.packet = none ∧ j = i then 1 else 0) =
    timers j s.world.pending + if j = i then n else 0
  /-- No node falls asleep. -/
  stays : node'.status = .asleep → node.status = .asleep
  /-- Only a timer event and a packet that wakes its node ask for a timer. -/
  asks : e.packet = none ∨ (node.status = .asleep ∧ node'.status ≠ .asleep) ∨ n = 0

theorem SimStep.asked {topo : Topo} {s s' : Sim} {e : QueueEvent} (hstep : SimStep ops s e s')
    (hsound : SoundSim topo s) (hasks : TurnAsksOnce ops s e) :
    ∃ i node node' n, AskedTurn s e i node node' n s' := by
  obtain ⟨queue, tested, world, nodes, vtimeTick, hpending, htick, hdispatch, rfl⟩ :=
    hstep.turn.ran
  obtain ⟨i, node, node', hi, hnode, hhandle, rfl⟩ := simDispatch_cases hdispatch
  have hsent := tick_sent htick
  have hafter : After (tickDraws s e.vtime) s.world tested :=
    Nat.zero_add (tickDraws s e.vtime) ▸ (After.setQueue s.world queue).trans hsent.after
  have hheld : ∀ ptr, e.packet = some ptr →
      ∃ packet, s.world.heap[ptr]? = some packet := fun ptr hptr => by
    obtain ⟨packet, _, _, hpacket, -⟩ := hsound.1.sent e (by
      rw [hpending, Multiset.zero_add]
      exact Multiset.mem_cons_self e _) ptr hptr
    exact ⟨packet, hpacket⟩
  obtain ⟨hstays, n, hn, hasked, hcases⟩ :=
    (wp_simHandle_asked ((hasks i hi node hnode).after hafter hheld) fun ptr hptr => by
      obtain ⟨packet, hpacket⟩ := hheld ptr hptr
      obtain ⟨packet', hpacket', -⟩ := hafter.heap ptr packet hpacket
      exact ⟨packet', hpacket'⟩).of_ok hhandle
  refine ⟨i, node, node', n, hnode, rfl, hn, fun j => ?_, hstays, hcases⟩
  -- The route tests have added packets only.
  have htested : Asked node.id 0 _ _ := .of_sent hsent
  have htested := htested j
  rw [World.setQueue_pending, ite_self, Nat.add_zero] at htested
  have hnodeEq : e.node = some j ↔ j = i := by rw [hi, Option.some.injEq, eq_comm]
  have hasked := hasked j
  rw [(hsound.2.sound i node hnode).1, htested] at hasked
  rw [hasked, hpending, timers_cons]
  simp only [hnodeEq]
  omega

/-- Between two events, each node has one timer at most, and a node that sleeps has none. -/
structure OneTimer (s : Sim) : Prop where
  /-- One timer at most. -/
  atMost : ∀ i, timers i s.world.pending ≤ 1
  /-- None while asleep. -/
  asleep : ∀ i (node : Node), s.nodes[i]? = some node → node.status = .asleep →
    timers i s.world.pending = 0

/-- A turn whose event asks for one timer at most leaves each node with one timer at most. -/
theorem OneTimer.step {topo : Topo} {s s' : Sim} {e : QueueEvent} (h : OneTimer s)
    (hsound : SoundSim topo s) (hstep : SimStep ops s e s') (hasks : TurnAsksOnce ops s e) :
    OneTimer s' := by
  obtain ⟨i, node, node', n, hturn⟩ := hstep.asked hsound hasks
  have hother : ∀ j, j ≠ i → timers j s'.world.pending = timers j s.world.pending := fun j hj => by
    have := hturn.timers_eq j
    rwa [if_neg fun h => hj h.2, if_neg hj] at this
  have hown : timers i s'.world.pending ≤ 1 ∧
      (node'.status = .asleep → timers i s'.world.pending = 0) := by
    have hn := hturn.le_one
    have hle := h.atMost i
    have heq := hturn.timers_eq i
    have hzero := h.asleep i node hturn.node_eq
    rw [if_pos rfl] at heq
    rcases hturn.asks with hnone | ⟨hasleep, hwoken⟩ | rfl
    · rw [if_pos ⟨hnone, rfl⟩] at heq
      refine ⟨by omega, fun hasleep => ?_⟩
      have := hzero (hturn.stays hasleep)
      omega
    · have := hzero hasleep
      exact ⟨by omega, fun hasleep' => absurd hasleep' hwoken⟩
    · refine ⟨by omega, fun hasleep => ?_⟩
      have := hzero (hturn.stays hasleep)
      omega
  refine ⟨fun j => ?_, fun j node₁ hnode₁ hasleep => ?_⟩
  · rcases eq_or_ne j i with rfl | hj
    · exact hown.1
    · exact (hother j hj).trans_le (h.atMost j)
  · rw [hturn.nodes_eq] at hnode₁
    rcases eq_or_ne j i with rfl | hj
    · rw [List.getElem?_set_self (List.getElem?_eq_some_iff.mp hturn.node_eq).1,
        Option.some.injEq] at hnode₁
      exact hown.2 (hnode₁ ▸ hasleep)
    · rw [List.getElem?_set_ne hj.symm] at hnode₁
      exact (hother j hj).trans (h.asleep j node₁ hnode₁ hasleep)

end Turn

/-! ## The start and every run -/

/-- Whether a node asks for a timer when it is initialised. -/
def StartsTimer (nodeOpts : List Char) (i : Nat) : Prop :=
  ('R' ∈ nodeOpts ∧ i = 0) ∨ 'A' ∈ nodeOpts

section Inits

variable {Front : Type} {callback : NodeCallback Front} {good : List UInt8 → Prop}
  {nodeOpts : List Char} {R : World Front → Prop} {i j : Nat} {todo : List Nat} {w : World Front}

/-- A property that node `j` is to bring about with its first timer: the node is to be initialised,
or the property holds if the node asks for a timer when it is. -/
def Started (nodeOpts : List Char) (R : World Front → Prop) (j : Nat) (todo : List Nat)
    (w : World Front) : Prop :=
  j ∈ todo ∨ (StartsTimer nodeOpts j → R w)

/-- Asking for the first timer brings the property about, and others keep it. -/
theorem Started.request {delay : Nat} (hdelay : delay ≤ 1500000)
    (hkept : KeptNewTimer callback (UInt16.ofNat i) vtimeZero good (fun _ => True) R)
    (hasks : i = j → ∀ w, Wp (callback (UInt16.ofNat i) (vtimeZero.after delay) none none)
      (fun _ => R) (fun _ => True) w)
    (h : Started nodeOpts R j (i :: todo) w) :
    Wp (callback (UInt16.ofNat i) (vtimeZero.after delay) none none)
      (fun _ => Started nodeOpts R j todo) (fun _ => True) w := by
  rcases h with hmem | hR
  · rcases List.mem_cons.mp hmem with rfl | hmem
    · exact (hasks rfl w).imp fun _ _ hw' => Or.inr fun _ => hw'
    · exact (wp_true _ _).imp fun _ _ _ => Or.inl hmem
  · by_cases hstarts : StartsTimer nodeOpts j
    · exact (hkept.timer w delay none hdelay (hR hstarts)).imp fun _ _ hw' => Or.inr fun _ => hw'
    · exact (wp_true _ _).imp fun _ _ _ => Or.inr fun h => absurd h hstarts

theorem ofNat_eq_zero_iff (hi : i < 2 ^ 16) : UInt16.ofNat i = 0 ↔ i = 0 := by
  rw [← UInt16.toNat_inj, UInt16.toNat_ofNat', Nat.mod_eq_of_lt hi]
  rfl

theorem startsTimer_iff (hi : i < 2 ^ 16) :
    StartsTimer nodeOpts i ↔ ('R' ∈ nodeOpts ∧ UInt16.ofNat i = 0) ∨ 'A' ∈ nodeOpts := by
  rw [StartsTimer, ofNat_eq_zero_iff hi]

/-- A node when the main loop starts. -/
structure StartNode (nodeOpts : List Char) (i : Nat) (node : Node) : Prop where
  /-- It is as it was initialised. -/
  initial : Initial (UInt16.ofNat i) node
  /-- It sleeps if it asked for no timer. -/
  asleep_iff : node.status = .asleep ↔ ¬ StartsTimer nodeOpts i
  /-- It is not waking. -/
  not_waking : node.status ≠ .waking

theorem StartNode.id_eq {node : Node} (h : StartNode nodeOpts i node) (hi : i < 2 ^ 16) :
    node.id.toNat = i := by
  rw [h.initial.id_eq, UInt16.toNat_ofNat']
  exact Nat.mod_eq_of_lt hi

/-- What the start makes of the nodes. -/
theorem wp_startNodes {n : Nat} (hn : n ≤ 2 ^ 16) :
    Wp ((List.range n).mapM fun i => nodeInit (some callback) (UInt16.ofNat i) nodeOpts)
      (fun nodes _ => List.Forall₂ (StartNode nodeOpts) (List.range n) nodes)
      (fun _ => True) w := by
  have hstep : ∀ i todo (w : World Front), (∀ k ∈ i :: todo, k < n) →
      Wp (nodeInit (some callback) (UInt16.ofNat i) nodeOpts)
        (fun node _ => StartNode nodeOpts i node ∧ ∀ k ∈ todo, k < n) (fun _ => True) w := by
    intro i todo w hlt
    have hi : i < 2 ^ 16 := (hlt i List.mem_cons_self).trans_le hn
    have hstatus : Wp (nodeInit (some callback) (UInt16.ofNat i) nodeOpts)
        (fun node _ => (node.status = .asleep ↔ ¬ StartsTimer nodeOpts i) ∧
          node.status ≠ .waking) (fun _ => True) w := by
      rw [startsTimer_iff hi]
      refine wp_nodeInit (fun hroot virtloc _ => ?_) (fun hawake virtloc _ => ?_)
        fun hroot hawake virtloc _ => ?_
      · exact (wp_true _ _).imp fun _ _ _ => by simp [hroot]
      · exact (wp_true _ _).imp fun _ _ _ => by simp [hawake]
      · simp [nodeBlank, hroot, hawake]
    refine (wp_nodeInit_node.and hstatus).mono (fun node _ hnode => ?_) fun _ _ => trivial
    exact ⟨⟨hnode.1, hnode.2.1, hnode.2.2⟩, fun k hk => hlt k (List.mem_cons_of_mem i hk)⟩
  exact (wp_mapM (fun todo _ => ∀ k ∈ todo, k < n) _ hstep
    fun k hk => List.mem_range.mp hk).imp fun _ _ hall => hall.1

/-- Initialising node `j` brings the property about if the node asks for a timer. -/
theorem wp_nodeInit_started (hi : i < 2 ^ 16)
    (hkept : KeptNewTimer callback (UInt16.ofNat i) vtimeZero good (fun _ => True) R)
    (hasks : i = j → ∀ delay ≤ 1500000, ∀ w,
      Wp (callback (UInt16.ofNat i) (vtimeZero.after delay) none none) (fun _ => R)
        (fun _ => True) w)
    (h : Started nodeOpts R j (i :: todo) w) :
    Wp (nodeInit (some callback) (UInt16.ofNat i) nodeOpts)
      (fun _ => Started nodeOpts R j todo) (fun _ => True) w := by
  have hskip : ∀ n, Started nodeOpts R j (i :: todo) (w.skip n) := fun n =>
    h.imp_right fun hR hstarts => hkept.toKeptNew.skips n (hR hstarts)
  have hrequest : ∀ n delay, delay ≤ 1500000 →
      Wp (callback (UInt16.ofNat i) (vtimeZero.after delay) none none)
        (fun _ => Started nodeOpts R j todo) (fun _ => True) (w.skip n) := fun n delay hdelay =>
    (hskip n).request hdelay hkept fun hij => hasks hij delay hdelay
  refine wp_nodeInit (fun hroot virtloc _ => ?_) (fun hawake virtloc _ => ?_)
    fun hroot hawake virtloc _ => ?_
  · exact hrequest _ 0 (by decide)
  · exact hrequest _ _ (beaconDelay_le (w.rand_lt _))
  · rcases hskip _ with hmem | hR
    · refine (List.mem_cons.mp hmem).symm.imp_right fun hji hstarts => ?_
      rw [hji, startsTimer_iff hi] at hstarts
      exact absurd hstarts (not_or.mpr ⟨hroot, hawake⟩)
    · exact Or.inr hR

/-- After the nodes are initialised, what node `j` is to bring about holds unless it sleeps. -/
theorem wp_nodeInits {n : Nat} (hn : n ≤ 2 ^ 16)
    (hkept : ∀ id, KeptNewTimer callback id vtimeZero good (fun _ => True) R)
    (hasks : ∀ delay ≤ 1500000, ∀ w,
      Wp (callback (UInt16.ofNat j) (vtimeZero.after delay) none none) (fun _ => R)
        (fun _ => True) w) :
    Wp ((List.range n).mapM fun i => nodeInit (some callback) (UInt16.ofNat i) nodeOpts)
      (fun nodes w' => ∀ node : Node, nodes[j]? = some node → node.id.toNat = j ∧
        (node.status ≠ .asleep → R w')) (fun _ => True) w := by
  let rest : List Nat → World Front → Prop := fun todo w =>
    (∀ i ∈ todo, i < n) ∧ (n ≤ j ∨ Started nodeOpts R j todo w)
  have hstep : ∀ i todo w, rest (i :: todo) w →
      Wp (nodeInit (some callback) (UInt16.ofNat i) nodeOpts)
        (fun _ w' => True ∧ rest todo w') (fun _ => True) w := by
    rintro i todo w ⟨hlt, hstarted⟩
    have hi : i < 2 ^ 16 := (hlt i List.mem_cons_self).trans_le hn
    have hlt' : ∀ k ∈ todo, k < n := fun k hk => hlt k (List.mem_cons_of_mem i hk)
    rcases hstarted with hj | hstarted
    · exact (wp_true _ _).imp fun _ _ _ => ⟨trivial, hlt', Or.inl hj⟩
    · exact (wp_nodeInit_started hi (hkept _) (fun hij => hij ▸ hasks) hstarted).imp
        fun _ _ hw' => ⟨trivial, hlt', Or.inr hw'⟩
  have hblank : rest (List.range n) w :=
    ⟨fun i hi => List.mem_range.mp hi,
      (Nat.lt_or_ge j n).symm.imp_right fun hj => Or.inl (List.mem_range.mpr hj)⟩
  have hstarted := wp_mapM rest (fun _ _ => True) hstep hblank
  refine ((wp_startNodes hn).and hstarted).mono (fun nodes w' hw' node hnode => ?_)
    fun _ _ => trivial
  obtain ⟨hall, -, -, hstarted⟩ := hw'
  obtain ⟨hj, hstart⟩ := forall₂_range hall hnode
  refine ⟨hstart.id_eq (hj.trans_le hn), fun hawake => ?_⟩
  have hasks : StartsTimer nodeOpts j := Classical.byContradiction (hawake ∘ hstart.asleep_iff.mpr)
  exact ((hstarted.resolve_left (by omega)).resolve_left List.not_mem_nil) hasks

end Inits

/-- Only the nodes that are initialised have a timer, and one at most. -/
def StartTimers (nodeOpts : List Char) (todo : List Nat) (w : World SimFront) : Prop :=
  (∀ i ∈ todo, i < 2 ^ 16) ∧ todo.Nodup ∧ ∀ i, timers i w.pending ≤ 1 ∧
    (i ∈ todo ∨ ¬ StartsTimer nodeOpts i → timers i w.pending = 0)

theorem StartTimers.asked {nodeOpts : List Char} {i n : Nat} {todo : List Nat}
    {w w' : World SimFront} (h : StartTimers nodeOpts (i :: todo) w) (hn : n ≤ 1)
    (hstarts : StartsTimer nodeOpts i ∨ n = 0) (hasked : Asked (UInt16.ofNat i) n w w') :
    StartTimers nodeOpts todo w' := by
  obtain ⟨hlt, hnodup, htimers⟩ := h
  obtain ⟨hnot, hnodup⟩ := List.nodup_cons.mp hnodup
  have hi : (UInt16.ofNat i).toNat = i := by
    rw [UInt16.toNat_ofNat']
    exact Nat.mod_eq_of_lt (hlt i List.mem_cons_self)
  refine ⟨fun j hj => hlt j (List.mem_cons_of_mem i hj), hnodup, fun j => ?_⟩
  rw [hasked j, hi]
  rcases eq_or_ne j i with rfl | hj
  · have := (htimers j).2 (Or.inl List.mem_cons_self)
    rw [if_pos rfl]
    refine ⟨by omega, fun hj => ?_⟩
    rcases hj with hmem | hno
    · exact absurd hmem hnot
    · have := hstarts.resolve_left hno
      omega
  · rw [if_neg hj]
    exact ⟨(htimers j).1, fun hj' => (htimers j).2 (hj'.imp_left (List.mem_cons_of_mem i))⟩

/-- Initialising a node gives it one timer at most, and none if it asks for none. -/
theorem wp_nodeInit_startTimers {nodeOpts : List Char} {i : Nat} {todo : List Nat}
    {w : World SimFront} (h : StartTimers nodeOpts (i :: todo) w) :
    Wp (nodeInit (some simCallback) (UInt16.ofNat i) nodeOpts)
      (fun _ => StartTimers nodeOpts todo) (fun _ => True) w := by
  have hiff : StartsTimer nodeOpts i ↔ _ := startsTimer_iff (h.1 i List.mem_cons_self)
  have hrequest : ∀ {vtime : VTime} {k : Nat}, StartsTimer nodeOpts i →
      Wp (simCallback (UInt16.ofNat i) vtime none none) (fun _ => StartTimers nodeOpts todo)
        (fun _ => True) (w.skip k) := fun hstarts =>
    wp_simCallback_asked.imp fun _ _ hw' => h.asked (dueBefore_le _ _) (Or.inl hstarts) hw'.2
  exact wp_nodeInit (fun hroot _ _ => hrequest (hiff.mpr (Or.inl hroot)))
    (fun hawake _ _ => hrequest (hiff.mpr (Or.inr hawake)))
    fun _ _ _ _ => h.asked (Nat.zero_le 1) (Or.inr rfl) (Asked.of_eq rfl)

theorem oneTimer_start {args : SimArgs} {tape : Nat → Fin randRange} {uninit : Nat → List UInt8}
    {s : Sim} (h : simStart args tape uninit = .ok s) : OneTimer s := by
  obtain ⟨topo, dims, nodes, world, -, -, hnodes, rfl⟩ := simStart_cases h
  have hblank : StartTimers args.nodeOpts (List.range (topo.maxId.toNat + 1))
      (simBlank topo dims (simEschaton args.timeout) tape uninit) := by
    refine ⟨fun i hi => ?_, List.nodup_range, fun i => ⟨Nat.zero_le 1, fun _ => rfl⟩⟩
    have hlt := topo.maxId.toNat_lt
    rw [List.mem_range] at hi
    omega
  have hrun : Wp (simNodes args.nodeOpts (topo.maxId.toNat + 1))
      (fun nodes w => List.Forall₂ (fun _ _ => True) (List.range (topo.maxId.toNat + 1)) nodes ∧
        StartTimers args.nodeOpts [] w) (fun _ => True) _ :=
    wp_mapM (StartTimers args.nodeOpts) _ (fun i todo w hw =>
      (wp_nodeInit_startTimers hw).imp fun _ _ h => ⟨trivial, h⟩) hblank
  obtain ⟨-, -, -, htimers⟩ := hrun.of_ok hnodes
  have hstatus := (wp_startNodes (Nat.succ_le_of_lt topo.maxId.toNat_lt)).of_ok hnodes
  refine ⟨fun i => (htimers i).1, fun i node hnode hasleep => (htimers i).2 (Or.inr ?_)⟩
  exact (forall₂_range hstatus hnode).2.asleep_iff.mp hasleep

/-- In a run none of whose events asks for two timers, each node has one timer at most. -/
theorem beaconTimers_le_one {F : Type} (ops : FloatOps F) {args : SimArgs}
    {tape : Nat → Fin randRange} {uninit : Nat → List UInt8} {s₀ s : Sim}
    {events : List QueueEvent} (hstart : simStart args tape uninit = .ok s₀)
    (hrun : Run (fun s e s' => SimStep ops s e s' ∧ TurnAsksOnce ops s e) s₀ events s) (i : Nat) :
    timers i s.world.pending ≤ 1 := by
  obtain ⟨topo, -, hsound⟩ := soundSim_start hstart
  have hkeeps : SoundSim topo s ∧ OneTimer s := by
    refine hrun.keeps (I := fun s => SoundSim topo s ∧ OneTimer s) (fun s e s' h hstep => ?_)
      ⟨hsound, oneTimer_start hstart⟩
    exact ⟨h.1.step hstep.1, h.2.step h.1 hstep.1 hstep.2⟩
  exact hkeeps.2.atMost i

/-- A root and a node that sleeps, for so many seconds. -/
def rootAndSleeper (timeout : Option Int32) : SimArgs :=
  { twoNodes with nodeOpts := ['R'], timeout }

theorem beaconTimers_le_one_oneSecond :
    ∃ s₀ s events, simStart (rootAndSleeper (some 1)) (fun _ => 0) (fun _ => []) = .ok s₀ ∧
      Run (fun s e s' => SimStep integerOps s e s' ∧ TurnAsksOnce integerOps s e) s₀ events s ∧
      events.map QueueEvent.vtime = [0, 18000] ∧ timers 1 s.world.pending = 1 ∧
      timers 1 s.world.pending ≤ 1 := by
  have hrun : (do
      let s ← simStart (rootAndSleeper (some 1)) (fun _ => 0) fun _ => []
      let r ← simRun integerOps (fun s e => TurnAsksOnce integerOps s e) 2 s
      return (r.1.map QueueEvent.vtime, timers 1 r.2.world.pending)) =
        (Except.ok ([0, 18000], 1) : Except Abort _) := by decide +kernel
  obtain ⟨s₀, hstart, hrun⟩ := bind_eq_ok hrun
  obtain ⟨⟨events, s⟩, hevents, hrun⟩ := bind_eq_ok hrun
  have hguarded : Run (fun s e s' => SimStep integerOps s e s' ∧ TurnAsksOnce integerOps s e)
      s₀ events s :=
    (simRun_run integerOps hevents).mono fun _ _ _ h => ⟨h.1, of_decide_eq_true h.2⟩
  have hend := Prod.mk.inj (Except.ok.inj hrun)
  exact ⟨s₀, s, events, hstart, hguarded, hend.1, hend.2,
    beaconTimers_le_one integerOps hstart hguarded 1⟩

/-- A node that wakes has two timers. -/
theorem beaconTimers_two :
    ¬ ∀ args tape uninit s, SimReachable integerOps args tape uninit s →
      ∀ i, timers i s.world.pending ≤ 1 := by
  intro h
  have hrun : (do
      let s ← simStart (rootAndSleeper none) (fun _ => 0) fun _ => []
      let r ← simRun integerOps (fun _ _ => true) 2 s
      return timers 1 r.2.world.pending) = (Except.ok 2 : Except Abort _) := by decide +kernel
  obtain ⟨s₀, hstart, hrun⟩ := bind_eq_ok hrun
  obtain ⟨⟨events, s⟩, hevents, hrun⟩ := bind_eq_ok hrun
  have hle := h _ _ _ s (.of_simRun integerOps hstart hevents) 1
  have htwo : timers 1 s.world.pending = 2 := Except.ok.inj hrun
  rw [htwo] at hle
  exact absurd hle (by decide)

end OldRadio.Second
