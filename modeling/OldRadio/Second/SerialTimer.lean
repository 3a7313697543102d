import OldRadio.Second.Serial

/-!
# Timer requests of the serial program

The serial program holds one timer request and asserts that a new one is earlier
than the pending one. Waking asks for two timers, and so does the end of waking;
the delays are random, so the second is not always the earlier one. The
assertion holds in a run exactly when in each of its turns the delays come in
the right order.
-/

namespace OldRadio.Second

open Library
open Node (M)

variable {F : Type} (ops : FloatOps F)

/-! ## Turns in order -/

/-- The packet that a turn of the inner loop receives, if any. -/
def Serial.heard (s : Serial) : Option Packet :=
  (radioListen s.timeout s.port).1.toOption.join

/-- Waking at `vtime` asks for timers in order: the one at a random delay is earlier than the
pending one, and the one a full period ahead is earlier still. -/
def WakesInOrder (w : World SerialFront) (vtime : VTime) : Prop :=
  vtime.after (beaconDelay (w.rand 0)) < w.front.timer ∧
    vtime.after nodeBeaconPeriod < vtime.after (beaconDelay (w.rand 0))

/-- When the timer at the end of a timer event is due, if `k` outcomes of `rand` were used before
the location is recomputed. -/
def rearmDue (w : World SerialFront) (node : Node) (vtime : VTime) (k : Nat) : VTime :=
  vtime.after (beaconDelay (w.rand (k + recalcDraws ops w.dims node.virtloc node.neighTable)))

/-- A timer event at `vtime` asks for timers in order; none is pending. -/
def RearmsInOrder (w : World SerialFront) (node : Node) (vtime : VTime) : Prop :=
  if node.status = .waking ∧ node.wakeTime ≤ vtime then
    vtime.after (beaconDelay (w.rand 0)) < vtimeInf ∧
      rearmDue ops w node vtime 1 < vtime.after (beaconDelay (w.rand 0))
  else rearmDue ops w node vtime 0 < vtimeInf

/-- The timers that a turn asks for are in order. -/
def TimerInOrder (s : Serial) (clock : SerialClock) : Prop :=
  if s.listens then
    ∀ packet ∈ s.heard, s.node.wakesOn packet = true → WakesInOrder s.world clock.received
  else s.world.front.timer ≤ s.vtime → RearmsInOrder ops s.world s.node s.vtime

/-- The timers that every turn of a run asks for are in order. -/
def InOrder : List SerialClock → Serial → Prop
  | [], _ => True
  | clock :: clocks, s => s.running = true → TimerInOrder ops s clock ∧
      ∀ next, serialStep ops s clock = .ok next → InOrder clocks next

/-! ## One turn -/

variable {ops} {node : Node} {vtime : VTime} {w : World SerialFront}

/-- Receiving a packet that does not wake the node asks for no timer. -/
theorem wp_serialReceive_quiet {packet : Packet} (hquiet : node.wakesOn packet = false) :
    Wp (serialReceive node vtime packet) (fun _ _ => True) (fun e => e ≠ .timerOrder) w := by
  have hkept : Kept serialCallback node.id vtime (fun _ => True) (fun e => e ≠ .timerOrder)
      (fun _ => True) := serialKept (by decide) (by decide) (by decide) (by decide)
  have hbeacon : ∀ e, packet.data.headD 0 = packetTypeBeacon →
      beaconParse packet.data = .error e → e ≠ .timerOrder := fun e _ he => by
    rcases beaconParse_error he with rfl | rfl <;> decide
  have hreceive := hkept.wp_nodeReceive (fun _ _ => trivial) (w.push_heap packet) hquiet hbeacon
    (fun _ _ => by decide) (fun _ => ⟨trivial, fun _ => trivial⟩) trivial
  exact wp_serialReceive.mpr (hreceive.imp fun _ w' hw' => hkept.keeps_packetFree _ w' hw')

/-- Waking fails the assertion exactly when its timers are out of order. -/
theorem wp_serialReceive_wake {packet : Packet} (hheld : packet.refcount ≠ 0)
    (hwakes : node.wakesOn packet = true) :
    Wp (serialReceive node vtime packet) (fun _ _ => WakesInOrder w vtime)
      (fun e => e = .timerOrder ↔ ¬ WakesInOrder w vtime) w := by
  refine wp_serialReceive.mpr (wp_nodeReceive_wake (w.push_heap packet) hwakes
    (fun h => absurd h hheld) fun neighs loc hparse => ?_)
  refine wp_nodeWake (wp_serialCallback_timer.mpr ⟨fun hfirst virtloc _ => ?_, fun hlate => ?_⟩)
  · refine wp_serialCallback_timer.mpr ⟨fun hsecond => ?_, fun hlate => ?_⟩
    · have horder : WakesInOrder w vtime := ⟨hfirst, hsecond⟩
      have hother : ∀ e : Abort, e ≠ .timerOrder → (e = .timerOrder ↔ ¬ WakesInOrder w vtime) :=
        fun e he => iff_of_false he (not_not_intro horder)
      refine wp_nodeRecord _ _ (beaconParse_ne_nil hparse)
        (fun _ => hother _ (by decide)) fun _ _ => ?_
      rw [packetFree, wp_bind]
      exact wp_packetRead (hother _ (by decide)) fun _ _ => horder
    · exact iff_of_true rfl fun horder => hlate horder.2
  · exact iff_of_true rfl fun horder => hlate horder.1

/-- The part of a timer event behind the change of status. -/
theorem wp_nodeRearm_order {extra : Option Nat} :
    Wp (do
      let node ← nodeVirtlocRecalc ops node
      nodeSendBeacon serialCallback node vtime
      let r ← rand
      serialCallback node.id (vtime.after (beaconDelay r)) none extra
      return node)
      (fun _ _ => rearmDue ops w node vtime 0 < w.front.timer)
      (fun e => e = .timerOrder ↔ ¬ rearmDue ops w node vtime 0 < w.front.timer) w := by
  refine wp_nodeRearm fun virtloc _ => ?_
  have hmtu : (beaconData { node with virtloc }).length ≤ radioMtu := by
    have := (length_beaconEntries { node with virtloc }).2
    rw [length_beaconData, radioMtu]
    omega
  refine (wp_sendNew_serial (beaconData_ne_nil _) hmtu).mono (fun _ w' hw' => ?_)
    fun _ h => h.elim
  obtain ⟨htimer, hrand⟩ := hw'
  rw [hrand, World.skip_rand, Nat.add_zero]
  refine wp_serialCallback_timer.mpr ⟨fun hlt => ?_, fun hlate => ?_⟩
  · rw [World.skip_front, htimer] at hlt
    rwa [rearmDue, Nat.zero_add]
  · rw [World.skip_front, htimer] at hlate
    rw [rearmDue, Nat.zero_add]
    exact iff_of_true rfl hlate

theorem rearmDue_skip (front : SerialFront) (status : NodeStatus) :
    rearmDue ops ((w.skip 1).setFront front) { node with status } vtime 0 =
      rearmDue ops w node vtime 1 := by
  rw [rearmDue, rearmDue, World.setFront_rand, World.skip_rand, Nat.zero_add]
  rfl

/-- A timer event fails the assertion exactly when its timers are out of order. -/
theorem wp_serialTimer_order :
    Wp (serialTimer ops node vtime) (fun _ _ => RearmsInOrder ops w node vtime)
      (fun e => e = .timerOrder ↔ ¬ RearmsInOrder ops w node vtime) w := by
  rw [serialTimer, wp_bind, wp_get, wp_bind, wp_modify, nodeTimer, wp_bind, RearmsInOrder]
  by_cases hdue : node.status = .waking ∧ node.wakeTime ≤ vtime
  · rw [if_pos hdue, wp_nodeTimerStatus_of_due hdue]
    refine wp_serialCallback_timer.mpr ⟨fun hfirst => ?_, fun hlate => ?_⟩
    · refine wp_nodeRearm_order.mono (fun _ _ horder => ⟨hfirst, ?_⟩) fun e he => he.trans ?_
      · rw [← rearmDue_skip]
        exact horder
      · rw [← rearmDue_skip]
        exact not_congr (and_iff_right hfirst).symm
    · exact iff_of_true rfl fun horder => hlate horder.1
  · rw [if_neg hdue, wp_nodeTimerStatus_of_not hdue]
    exact wp_nodeRearm_order

variable (ops)

/-- A turn fails the assertion exactly when its timers are out of order. -/
theorem serialStep_timerOrder_iff (s : Serial) (clock : SerialClock) :
    serialStep ops s clock = .error .timerOrder ↔ ¬ TimerInOrder ops s clock := by
  rw [serialStep, TimerInOrder]
  by_cases hlistens : s.listens = true
  · rw [if_pos hlistens, if_pos hlistens, serialListen, Serial.heard]
    rcases radioListen_cases s.timeout s.port with herror | hnone | ⟨packet, hsome, hheld⟩
    · rw [herror]
      exact iff_of_false (fun h => by cases h) (not_not_intro fun _ h => by cases h)
    · rw [hnone]
      exact iff_of_false (fun h => by cases h) (not_not_intro fun _ h => by cases h)
    · rw [hsome, ok_bind]
      dsimp only
      rw [bind_pure_eq_error]
      cases hwakes : s.node.wakesOn packet with
      | false =>
        refine iff_of_false (fun h => (wp_serialReceive_quiet hwakes).of_error h rfl)
          (not_not_intro fun p hp hwakes' => ?_)
        cases hp
        exact absurd hwakes' (Bool.eq_false_iff.mp hwakes)
      | true =>
        rw [(wp_serialReceive_wake (by omega) hwakes).error_iff]
        refine not_congr ⟨fun h p hp _ => h, fun h => h packet rfl hwakes⟩
  · rw [if_neg hlistens, if_neg hlistens, serialElapse]
    by_cases hdue : s.world.front.timer ≤ s.vtime
    · rw [if_pos hdue, bind_pure_eq_error, wp_serialTimer_order.error_iff]
      exact not_congr ⟨fun h _ => h, fun h => h hdue⟩
    · rw [if_neg hdue]
      exact iff_of_false (fun h => by cases h) (not_not_intro fun h => absurd h hdue)

/-! ## Every run -/

/-- A run fails the assertion exactly when one of its turns is out of order. -/
theorem serialRun_timerOrder_iff (clocks : List SerialClock) (s : Serial) :
    serialRun ops clocks s = .error .timerOrder ↔ ¬ InOrder ops clocks s := by
  induction clocks generalizing s with
  | nil => exact iff_of_false (fun h => by cases h) (not_not_intro trivial)
  | cons clock clocks ih =>
    rw [serialRun, InOrder]
    by_cases hrunning : s.running = true
    · rw [if_pos hrunning]
      have hturn := serialStep_timerOrder_iff ops s clock
      cases hstep : serialStep ops s clock with
      | error e =>
        rw [hstep] at hturn
        rw [error_bind, hturn]
        exact not_congr ⟨fun h _ => ⟨h, fun next hnext => by cases hnext⟩, fun h => (h hrunning).1⟩
      | ok next =>
        rw [hstep] at hturn
        have horder : TimerInOrder ops s clock := by
          by_contra hnot
          cases hturn.mpr hnot
        rw [ok_bind, ih]
        refine not_congr ⟨fun h _ => ⟨horder, fun next' hnext => ?_⟩,
          fun h => (h hrunning).2 next rfl⟩
        cases hnext
        exact h
    · rw [if_neg hrunning]
      exact iff_of_false (fun h => by cases h) (not_not_intro fun h => absurd h hrunning)

/-- Nothing stops the start of the program. -/
theorem serialStart_ok (args : SerialArgs) (tape : Nat → Fin randRange)
    (uninit : Nat → List UInt8) : ∃ s, serialStart args tape uninit = .ok s := by
  have hinit : Wp (nodeInit none args.id []) (fun _ _ => True) (fun _ => False)
      (serialBlank tape uninit) := by
    rw [nodeInit, wp_bind]
    exact wp_virtlocInit fun virtloc _ => trivial
  unfold serialStart
  cases hrun : nodeInit none args.id [] (serialBlank tape uninit) with
  | ok r => exact ⟨_, rfl⟩
  | error e => exact (hinit.of_error hrun).elim

/-- The assertion of `serial_callback` holds throughout a run exactly when every turn of it is in
order. -/
theorem serialTimer_inOrder_iff (args : SerialArgs) (tape : Nat → Fin randRange)
    (uninit : Nat → List UInt8) (clocks : List SerialClock) :
    serialMain ops args tape uninit clocks ≠ .error .timerOrder ↔
      ∀ s, serialStart args tape uninit = .ok s → InOrder ops clocks s := by
  obtain ⟨s, hstart⟩ := serialStart_ok args tape uninit
  rw [serialMain, hstart, ok_bind, Ne, serialRun_timerOrder_iff, not_not]
  refine ⟨fun h s' hs' => ?_, fun h => h s rfl⟩
  cases hs'
  exact h

/-- The beacon of a root that has heard of no one. -/
def rootBeacon : Packet :=
  { refcount := 1, data := beaconData { nodeBlank 0 locZero with status := .root } }

/-- Node 1, which sleeps until it hears a root. -/
def hearsRoot : SerialArgs where
  id := 1
  timeout := 10
  port := promptPort ((radioFrame rootBeacon).toOption.getD []) fun _ => 64
  start := 0

/-- A first delay of a second and a half is late enough for the second timer to be earlier. -/
example : (do
    let s ← serialMain integerOps hearsRoot (fun k => if k = 3 then 2147483647 else 0)
      (fun _ => []) [⟨5, 6⟩]
    return s.world.front.timer) = (Except.ok 1000005 : Except Abort VTime) := by decide +kernel

/-- With a first delay of half a second the assertion fails when the node wakes. -/
theorem serialTimer_late :
    ¬ ∀ args tape uninit clocks,
      serialMain integerOps args tape uninit clocks ≠ .error .timerOrder := by
  intro h
  have hrun : (do
      let _ ← serialMain integerOps hearsRoot (fun _ => 0) (fun _ => []) [⟨5, 6⟩]
      return ()) = (Except.error .timerOrder : Except Abort Unit) := by decide +kernel
  exact h _ _ _ _ (bind_pure_eq_error.mp hrun)

end OldRadio.Second
