import OldRadio.Library.Agenda
import OldRadio.Second.SimTime
import OldRadio.Second.Stops

/-!
# The simulator comes to an end

With a timeout the main loop ends. What handling an event asks for is due later
than the event, by two milliseconds at least, and nothing is due at `Eschaton`
or later. The packets of route tests may be due earlier than the event they come
with, but each tick advances `vtime_tick`, and it never passes `Eschaton` by
more than a second.
-/

namespace OldRadio.Second

open Library
open Node (M)

/-- The world `w'` is `w` with perhaps more events, due later than `v`. -/
structure AddsLater (v : Nat) (w w' : World SimFront) : Prop where
  /-- The new events. -/
  added : ∃ new : Multiset QueueEvent, w'.pending = new + w.pending ∧
    ∀ f ∈ new, v < f.vtime.toNat
  /-- Every packet is brief. -/
  brief : BriefWorld w'

section Adds

variable {F : Type} {ops : FloatOps F} {v : Nat} {w w' : World SimFront} {id : NodeId}
  {vtime : VTime}

theorem AddsLater.refl (h : BriefWorld w) : AddsLater v w w :=
  ⟨⟨0, (Multiset.zero_add _).symm, fun _ hf => absurd hf (Multiset.notMem_zero _)⟩, h⟩

/-- An event more. -/
theorem AddsLater.cons (h : AddsLater v w w') {e : QueueEvent} (he : v < e.vtime.toNat)
    {queue : EventQueue} (hqueue : queue.pending = e ::ₘ w'.pending) :
    AddsLater v w (w'.setQueue queue) := by
  obtain ⟨new, hnew, hlater⟩ := h.added
  refine ⟨⟨e ::ₘ new, ?_, fun f hf => ?_⟩, h.brief⟩
  · rw [World.setQueue_pending, hqueue, hnew, Multiset.cons_add]
  · rcases Multiset.mem_cons.mp hf with rfl | hf
    · exact he
    · exact hlater f hf

/-- Packets take time to arrive. -/
theorem addsLater_kept (hroom : ClockRoom vtime) :
    Kept simCallback id vtime Brief (fun _ => True) (AddsLater vtime.toNat w) :=
  Delivers.kept
    { skip := fun _ h => ⟨h.added, h.brief⟩
      push := fun _ _ hdata h => ⟨h.added, h.brief.push hdata⟩
      poke := fun _ _ _ _ hp h => ⟨h.added, h.brief.poke hp⟩
      deliver := fun w' ptr p t r queue _ hdata _ hqueue h => by
        refine h.cons ?_ hqueue
        have hdelay := propDelay_le hdata.2 r
        have hpos : 0 < propDelay p.data.length r :=
          Nat.lt_of_lt_of_le (by decide : 0 < simPropDelayMin) (Nat.le_max_left _ _)
        unfold ClockRoom at hroom
        rw [packetEvent, VTime.toNat_after (by omega)]
        omega }

/-- A timer takes time. -/
theorem wp_simCallback_later (hroom : ClockRoom vtime) {delay : Nat} {extra : Option Nat}
    (hpos : 0 < delay) (hdelay : delay ≤ 1500000) (h : AddsLater vtime.toNat w w') :
    Wp (simCallback id (vtime.after delay) none extra) (fun _ => AddsLater vtime.toNat w)
      (fun _ => True) w' := by
  refine wp_simCallback_timer trivial (fun _ => ⟨h.added, h.brief⟩) fun _ queue hqueue => ?_
  have hskip : AddsLater vtime.toNat w (w'.skip 1) := ⟨h.added, h.brief⟩
  refine hskip.cons ?_ hqueue
  have hfuzz : w'.rand 0 % simTimerDelayFuzz < 1000 := Nat.mod_lt _ (by decide)
  unfold ClockRoom at hroom
  have hfirst : (vtime.after delay).toNat = vtime.toNat + delay := VTime.toNat_after (by omega)
  rw [timerEvent, VTime.toNat_after (by omega)]
  omega

theorem beaconDelay_pos (r : Nat) : 0 < beaconDelay r := by
  unfold beaconDelay nodeBeaconPeriod vtimeSeconds randRange
  omega

/-- A timer after a random delay. -/
theorem wp_simCallback_beacon (hroom : ClockRoom vtime) {r : Nat} (hr : r < randRange)
    {extra : Option Nat} (h : AddsLater vtime.toNat w w') :
    Wp (simCallback id (vtime.after (beaconDelay r)) none extra)
      (fun _ => AddsLater vtime.toNat w) (fun _ => True) w' :=
  wp_simCallback_later hroom (beaconDelay_pos r) (beaconDelay_le hr) h

/-- What a timer event asks for is due later. -/
theorem wp_nodeTimer_later {node : Node} {extra : Option Nat} (hroom : ClockRoom vtime)
    (h : AddsLater vtime.toNat w w') :
    Wp (nodeTimer ops simCallback node vtime extra) (fun _ => AddsLater vtime.toNat w)
      (fun _ => True) w' := by
  have hkept : Kept simCallback node.id vtime Brief (fun _ => True) (AddsLater vtime.toNat w) :=
    addsLater_kept hroom
  rw [nodeTimer, wp_bind]
  refine (wp_nodeTimerStatus h
    (wp_simCallback_beacon hroom (w'.rand_lt 0) (hkept.skip w' h))).imp
    fun node₁ w₁ h₁ => wp_nodeRearm fun virtloc _ => ?_
  obtain ⟨⟨status, rfl, -⟩, hw₁⟩ := h₁
  have hbeacon : ∀ node₂ : Node, node₂.id = node.id → Keeps (AddsLater vtime.toNat w)
      (fun _ => True) (nodeSendBeacon simCallback node₂ vtime) := fun node₂ hid => by
    rw [← hid] at hkept
    exact hkept.keptNew.keeps_nodeSendBeacon (brief_beacon node₂)
  refine (hbeacon { node with status, virtloc } rfl _ (hkept.keptNew.skips _ hw₁)).imp
    fun _ w₂ hw₂ => ?_
  exact wp_simCallback_beacon hroom (w₂.rand_lt 0) (hkept.skip w₂ hw₂)

/-- What receiving a packet asks for is due later. -/
theorem wp_nodeReceive_later {node : Node} {ptr : Nat} {p : Packet} (hroom : ClockRoom vtime)
    (hp : w'.heap[ptr]? = some p) (h : AddsLater vtime.toNat w w') :
    Wp (nodeReceive simCallback node vtime ptr) (fun _ => AddsLater vtime.toNat w)
      (fun _ => True) w' := by
  have hkept : Kept simCallback node.id vtime Brief (fun _ => True) (AddsLater vtime.toNat w) :=
    addsLater_kept hroom
  cases hwakes : node.wakesOn p with
  | false =>
    exact hkept.wp_nodeReceive (fun data _ => brief_data data) hp hwakes (fun _ _ _ => trivial)
      (fun _ _ => trivial) (fun _ => ⟨h.brief p (List.mem_of_getElem? hp), brief_data⟩) h
  | true =>
    -- waking asks for two timers
    refine wp_nodeReceive_wake hp hwakes (fun _ => trivial) fun neighs loc hparse =>
      wp_nodeWake ?_
    refine (wp_simCallback_beacon hroom (w'.rand_lt 0) (hkept.skip w' h)).imp
      fun _ w₁ hw₁ virtloc _ => ?_
    refine (wp_simCallback_later hroom (by decide) (by decide)
      (hkept.keptNew.skips _ hw₁)).imp fun _ w₂ hw₂ => ?_
    exact wp_nodeRecord _ _ (beaconParse_ne_nil hparse) (fun _ => trivial) fun _ _ => hw₂

/-- What an event asks for is due later than the event. -/
theorem wp_simHandle_later {node : Node} {e : QueueEvent} (hroom : ClockRoom e.vtime)
    (h : AddsLater e.vtime.toNat w w') :
    Wp (simHandle ops node e) (fun _ => AddsLater e.vtime.toNat w) (fun _ => True) w' := by
  have hkept : Kept simCallback node.id e.vtime Brief (fun _ => True)
      (AddsLater e.vtime.toNat w) := addsLater_kept hroom
  unfold simHandle
  cases hptr : e.packet with
  | some ptr =>
    dsimp only
    rw [wp_bind]
    refine wp_nodeReceive_read trivial fun p hp => ?_
    refine (wp_nodeReceive_later hroom hp h).imp fun node' w₁ hw₁ => ?_
    rw [wp_bind]
    exact hkept.keeps_packetFree ptr w₁ hw₁
  | none => exact wp_nodeTimer_later hroom h

end Adds

/-! ## One turn -/

section Turn

variable {F : Type} {ops : FloatOps F} {s s' : Sim} {e : QueueEvent}

/-- A tick advances `vtime_tick` by a second. -/
theorem vtimeTick_of_simTick {nodes : List Node} {vtime vtimeTick vtimeTick' : VTime}
    {w w' : World SimFront} (h : simTick nodes vtime vtimeTick w = .ok (vtimeTick', w')) :
    if vtimeTick < vtime then vtimeTick' = vtimeTick.after vtimeSeconds
    else vtimeTick' = vtimeTick ∧ w' = w := by
  unfold simTick at h
  split at h
  · rename_i htick
    rw [if_pos htick]
    have hwp : Wp (do
        let _ ← MonadExcept.ofExcept (simRouteTest nodes)
        forM nodes fun node => nodeRouteTest simCallback node vtimeTick
        return vtimeTick.after vtimeSeconds : M SimFront VTime)
        (fun vtimeTick' _ => vtimeTick' = vtimeTick.after vtimeSeconds) (fun _ => True) w := by
      rw [wp_bind]
      refine wp_ofExcept (fun _ _ => ?_) fun _ _ => trivial
      rw [wp_bind]
      exact (wp_true _ _).imp fun _ _ _ => rfl
    exact hwp.of_ok h
  · rename_i htick
    rw [if_neg htick]
    cases h
    exact ⟨rfl, rfl⟩

/-- A turn of the main loop works off its event, or ticks. -/
theorem SimStep.agendaTurn {horizon : Nat} (hstep : SimStep ops s e s')
    (hbrief : BriefWorld s.world) (hdue : ∀ f ∈ s.world.pending, f.vtime.toNat < horizon)
    (hdue' : ∀ f ∈ s'.world.pending, f.vtime.toNat < horizon) (hhorizon : horizon < 2 ^ 63) :
    BriefWorld s'.world ∧ AgendaTurn (fun f : QueueEvent => f.vtime.toNat) horizon
      (s.vtimeTick.toNat, s.world.pending) (s'.vtimeTick.toNat, s'.world.pending) := by
  obtain ⟨queue, tested, world, nodes, vtimeTick, hpending, htick, hdispatch, rfl⟩ :=
    hstep.turn.ran
  obtain ⟨i, node, node', -, -, hhandle, rfl⟩ := simDispatch_cases hdispatch
  have he : e.vtime.toNat < horizon := hdue e (hpending ▸ Multiset.mem_cons_self e _)
  have hroom : ClockRoom e.vtime := by
    unfold ClockRoom
    omega
  have htested : BriefWorld tested := by
    have hkeeps : Keeps BriefWorld (fun _ => True) (simTick s.nodes e.vtime s.vtimeTick) :=
      keeps_simTick trivial fun node _ =>
        KeptNew.keeps_nodeRouteTest (fun data _ => brief_data data)
          (briefWorld_delivers.keptNew trivial trivial)
    exact (hkeeps _ (show BriefWorld (s.world.setQueue queue) from hbrief)).of_ok htick
  obtain ⟨⟨new, hnew, hlater⟩, hafter⟩ :=
    (wp_simHandle_later hroom (.refl htested)).of_ok hhandle
  refine ⟨hafter, ?_⟩
  have hticked := vtimeTick_of_simTick htick
  split at hticked
  · rename_i hlt
    rw [UInt64.lt_iff_toNat_lt] at hlt
    have hsecond : vtimeSeconds = 1000000 := rfl
    have hnext : vtimeTick.toNat = s.vtimeTick.toNat + vtimeSeconds := by
      rw [hticked, VTime.toNat_after (by omega)]
    refine .ticks ?_ (hlt.trans he)
    dsimp only
    omega
  · obtain ⟨rfl, rfl⟩ := hticked
    dsimp only
    rw [hpending, hnew]
    refine .works fun f hf => ⟨hlater f hf, hdue' f ?_⟩
    exact (congrArg (f ∈ ·) hnew).mpr (Multiset.mem_add.mpr (Or.inl hf))

end Turn

/-! ## Every run -/

/-- With a timeout the main loop ends: one run has every other as its beginning, and it is over
because nothing is to come, and then no packet is held, or because a neighbour table or the queue is
full. -/
theorem sim_ends {F : Type} (ops : FloatOps F) {args : SimArgs} {tape : Nat → Fin randRange}
    {uninit : Nat → List UInt8} {timeout : Int32} {s₀ : Sim}
    (htimeout : args.timeout = some timeout) (hnonneg : 0 ≤ timeout)
    (hstart : simStart args tape uninit = .ok s₀) :
    ∃ events s, Run (SimStep ops) s₀ events s ∧
      ((simStep ops s = .ok none ∧ s.world.pending = 0 ∧ ∀ p ∈ s.world.heap, p.refcount = 0) ∨
        simStep ops s = .error .neighTableFull ∨ simStep ops s = .error .queueFull) ∧
      ∀ events' s', Run (SimStep ops) s₀ events' s' → events' <+: events := by
  have hhorizon : (simEschaton args.timeout).toNat < 2 ^ 63 := by
    have hhigh := timeout.toInt_lt
    have heq := toNat_simEschaton timeout
    rw [Int32.le_iff_toInt_le, Int32.toInt_zero] at hnonneg
    rw [if_neg (by omega)] at heq
    rw [htimeout]
    omega
  have hdue : ∀ s, SimReachable ops args tape uninit s → ∀ f ∈ s.world.pending,
      f.vtime.toNat < (simEschaton args.timeout).toNat := fun s hs f hf =>
    UInt64.lt_iff_toNat_lt.mp (hs.due f hf)
  obtain ⟨events, s, hrun, hlast, hall⟩ := Run.exists_last
    (I := fun s => SimReachable ops args tape uninit s ∧ BriefWorld s.world)
    (f := fun s => (s.vtimeTick.toNat, s.world.pending))
    (wellFounded_agendaTurn (fun f : QueueEvent => f.vtime.toNat)
      (simEschaton args.timeout).toNat)
    (fun s e s' hs hstep => by
      obtain ⟨hreach, hbrief⟩ := hs
      have hreach' : SimReachable ops args tape uninit s' := by
        obtain ⟨s₀, events, hstart, hrun⟩ := hreach
        exact ⟨s₀, events ++ [e], hstart, hrun.snoc hstep⟩
      obtain ⟨hbrief', hturn⟩ := hstep.agendaTurn hbrief (hdue s hreach) (hdue s' hreach') hhorizon
      exact ⟨⟨hreach', hbrief'⟩, hturn⟩)
    (fun s e s₁ e' s₂ h₁ h₂ => by
      have heq := h₁.symm.trans h₂
      cases heq
      exact ⟨rfl, rfl⟩)
    ⟨⟨s₀, [], hstart, .nil s₀⟩, (simStart_notBefore hstart).2⟩
  have hreach : SimReachable ops args tape uninit s := ⟨s₀, events, hstart, hrun⟩
  refine ⟨events, s, hrun, ?_, hall⟩
  cases hstep : simStep ops s with
  | ok next =>
    cases next with
    | none =>
      have hzero := pending_of_simStep_none hreach.due hstep
      exact Or.inl ⟨rfl, hzero, hreach.freed hzero⟩
    | some next => exact absurd hstep (hlast next.1 next.2)
  | error err =>
    rcases hreach.stops hstep with rfl | rfl
    · exact Or.inr (Or.inl rfl)
    · exact Or.inr (Or.inr rfl)

theorem sim_ends_threeSeconds :
    ∃ s₀ events s, simStart threeSeconds (fun _ => 10) (fun _ => []) = .ok s₀ ∧
      Run (SimStep integerOps) s₀ events s ∧
      ((simStep integerOps s = .ok none ∧ s.world.pending = 0 ∧
          ∀ p ∈ s.world.heap, p.refcount = 0) ∨
        simStep integerOps s = .error .neighTableFull ∨
        simStep integerOps s = .error .queueFull) ∧
      ∀ events' s', Run (SimStep integerOps) s₀ events' s' → events' <+: events := by
  have hrun : (do
      let s ← simStart threeSeconds (fun _ => 10) fun _ => []
      return s.nodes.length) = (Except.ok 2 : Except Abort _) := by decide +kernel
  obtain ⟨s₀, hstart, -⟩ := bind_eq_ok hrun
  obtain ⟨events, s, hends⟩ := sim_ends integerOps rfl (by decide) hstart
  exact ⟨s₀, events, s, hstart, hends⟩

end OldRadio.Second
