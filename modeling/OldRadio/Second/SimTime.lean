import OldRadio.Second.SimDraws

/-!
# Simulated time

Every event that a node asks for is due no earlier than the event it is
handling. The route tests of a tick are not: they are stamped with `vtime_tick`,
which falls behind when events are more than a second apart, so their packets
can arrive before the event that the tick comes with. Where none of them does,
time does not run backwards.
-/

namespace OldRadio.Second

open Library
open Node (M)

/-- No event to come is due before `v`. -/
def NotBefore (v : Nat) (w : World SimFront) : Prop := ∀ e ∈ w.pending, v ≤ e.vtime.toNat

/-- Largest number of bytes of a packet in the simulator: a full beacon. -/
def packetMax : Nat := 197

/-- What nodes send is not longer than a full beacon. -/
def Brief (data : List UInt8) : Prop := data ≠ [] ∧ data.length ≤ packetMax

/-- Every packet is brief. -/
def BriefWorld (w : World SimFront) : Prop := ∀ p ∈ w.heap, Brief p.data

theorem brief_data (data : PacketData) : Brief (packetDataLayout.encode data) :=
  ⟨packetDataLayout_encode_ne_nil data, by
    rw [packetDataLayout.length_encode, packetDataLayout_size]
    decide⟩

theorem brief_beacon (node : Node) : Brief (beaconData node) := by
  refine ⟨beaconData_ne_nil node, ?_⟩
  have := (length_beaconEntries node).2
  rw [length_beaconData, packetMax]
  omega

/-- The clock is far enough from its end that nothing asked for at `vtime` wraps. -/
def ClockRoom (vtime : VTime) : Prop := vtime.toNat + 1501000 ≤ 2 ^ 64

theorem propDelay_le {length : Nat} (h : length ≤ packetMax) (r : Nat) :
    propDelay length r ≤ 198999 := by
  have hmod := Nat.mod_lt r (show 0 < 1000 by decide)
  unfold propDelay simPropDelayMin simPropDelayBase simPropDelayPerbyte simPropDelayFuzz
    vtimeMicros
  unfold packetMax at h
  omega

/-- A number of 64 bits, with and without a sign. -/
theorem toNat_toUInt64 (a : Int64) :
    (a.toUInt64.toNat : Int) = if a.toInt < 0 then a.toInt + 2 ^ 64 else a.toInt := by
  have hcond := BitVec.toInt_eq_toNat_cond a.toBitVec
  have hlt := a.toBitVec.isLt
  change (a.toBitVec.toNat : Int) = if a.toBitVec.toInt < 0 then a.toBitVec.toInt + 2 ^ 64
    else a.toBitVec.toInt
  rw [hcond]
  split <;> split <;> omega

/-- A timeout in microseconds; a negative one wraps. -/
theorem toNat_simEschaton (timeout : Int32) :
    ((simEschaton (some timeout)).toNat : Int) =
      if timeout.toInt < 0 then timeout.toInt * 1000000 + 2 ^ 64 else timeout.toInt * 1000000 := by
  have hlow := timeout.le_toInt
  have hhigh := timeout.toInt_lt
  have hseconds : (Int64.ofNat vtimeSeconds).toInt = 1000000 := by decide
  have hmul : (timeout.toInt64 * Int64.ofNat vtimeSeconds).toInt = timeout.toInt * 1000000 := by
    rw [Int64.toInt_mul, Int32.toInt_toInt64, hseconds]
    exact Int.bmod_eq_of_le (by omega) (by omega)
  have hunsigned := toNat_toUInt64 (timeout.toInt64 * Int64.ofNat vtimeSeconds)
  rw [hmul] at hunsigned
  rw [simEschaton, hunsigned]
  split <;> split <;> omega

/-- `Eschaton` is small, or large if no timeout is given or a negative one. -/
theorem simEschaton_cases (timeout : Option Int32) :
    (simEschaton timeout).toNat < 2 ^ 51 ∨ 2 ^ 63 ≤ (simEschaton timeout).toNat := by
  cases timeout with
  | none => exact Or.inr (by decide)
  | some timeout =>
    have hlow := timeout.le_toInt
    have hhigh := timeout.toInt_lt
    have heq := toNat_simEschaton timeout
    split at heq <;> omega

section Keeps

variable {id : NodeId} {vtime : VTime} {v : Nat}

theorem BriefWorld.push {w : World SimFront} {data : List UInt8} (h : BriefWorld w)
    (hdata : Brief data) : BriefWorld (w.push { refcount := 1, data }) := by
  intro p hp
  rcases List.mem_append.mp hp with hp | hp
  · exact h p hp
  · rw [List.mem_singleton.mp hp]
    exact hdata

theorem BriefWorld.poke {w : World SimFront} {ptr n : Nat} {p : Packet} (h : BriefWorld w)
    (hp : w.heap[ptr]? = some p) : BriefWorld (w.poke ptr { p with refcount := n }) := by
  intro p' hp'
  rcases List.mem_or_eq_of_mem_set hp' with hmem | rfl
  · exact h p' hmem
  · exact h p (List.mem_of_getElem? hp)

/-- Packets stay brief, whatever the time. -/
theorem briefWorld_delivers : Delivers id vtime Brief BriefWorld where
  skip _ h := h
  push _ _ hdata h := h.push hdata
  poke _ _ _ _ hp h := h.poke hp
  deliver _ _ _ _ _ _ _ _ _ _ h := h

/-- What a node asks for at `vtime` is due no earlier. -/
theorem notBefore_keptTimer (hv : v ≤ vtime.toNat) (hroom : ClockRoom vtime) :
    KeptTimer simCallback id vtime Brief (fun _ => True)
      (fun w => NotBefore v w ∧ BriefWorld w) where
  toKept := Delivers.kept
    { skip := fun _ h => h
      push := fun _ _ hdata h => ⟨h.1, h.2.push hdata⟩
      poke := fun _ _ _ _ hp h => ⟨h.1, h.2.poke hp⟩
      deliver := fun w ptr p t r queue _ hdata _ hqueue h => by
        refine ⟨fun e he => ?_, h.2⟩
        rw [World.setQueue_pending, hqueue] at he
        rcases Multiset.mem_cons.mp he with rfl | he
        · have hdelay := propDelay_le hdata.2 r
          unfold ClockRoom at hroom
          rw [packetEvent, VTime.toNat_after (by omega)]
          omega
        · exact h.1 e he }
  timer w delay extra hdelay h := by
    refine wp_simCallback_timer trivial (fun _ => h) fun _ queue hqueue => ⟨fun e he => ?_, h.2⟩
    rw [World.setQueue_pending, hqueue] at he
    rcases Multiset.mem_cons.mp he with rfl | he
    · have hfuzz : w.rand 0 % simTimerDelayFuzz < 1000 := Nat.mod_lt _ (by decide)
      unfold ClockRoom at hroom
      have hfirst : (vtime.after delay).toNat = vtime.toNat + delay :=
        VTime.toNat_after (by omega)
      rw [timerEvent, VTime.toNat_after (by omega)]
      omega
    · exact h.1 e he

end Keeps

/-! ## One turn -/

/-- No packet of the route tests that a turn runs is due before the event it handles, unless it is
dropped. The `k`-th of them arrives when the `k`-th next outcome of `rand` says. -/
def TestsInTime (s : Sim) (e : QueueEvent) : Prop :=
  ∀ k < tickDraws s e.vtime,
    e.vtime ≤ s.vtimeTick.after (propDelay packetDataLayout.size (s.world.rand k)) ∨
      s.world.front.eschaton ≤
        s.vtimeTick.after (propDelay packetDataLayout.size (s.world.rand k))

/-- A turn whose route tests are in time, at a time from which delays do not wrap. -/
def InTime (s : Sim) (e : QueueEvent) : Prop := TestsInTime s e ∧ ClockRoom e.vtime

instance (s : Sim) (e : QueueEvent) : Decidable (InTime s e) := by
  unfold InTime TestsInTime ClockRoom
  infer_instance

variable {F : Type} {ops : FloatOps F}

theorem wp_simHandle_notBefore {node : Node} {e : QueueEvent} {w : World SimFront}
    (hroom : ClockRoom e.vtime) (h : NotBefore e.vtime.toNat w ∧ BriefWorld w) :
    Wp (simHandle ops node e)
      (fun _ w' => NotBefore e.vtime.toNat w' ∧ BriefWorld w') (fun _ => True) w := by
  have hkept : KeptTimer simCallback node.id e.vtime Brief (fun _ => True)
      (fun w => NotBefore e.vtime.toNat w ∧ BriefWorld w) := notBefore_keptTimer le_rfl hroom
  unfold simHandle
  cases hptr : e.packet with
  | some ptr =>
    dsimp only
    rw [wp_bind]
    refine wp_nodeReceive_read trivial fun p hp => ?_
    have hbrief := h.2 p (List.mem_of_getElem? hp)
    refine (hkept.wp_nodeReceive (fun data _ => brief_data data) hp
      (fun _ _ _ => trivial) (fun _ _ => trivial) (fun _ => ⟨hbrief, brief_data⟩) h).imp
      fun node' w' hw' => ?_
    rw [wp_bind]
    exact hkept.toKept.keeps_packetFree ptr w' hw'
  | none =>
    exact hkept.keptNewTimer.keeps_nodeTimer (fun node' _ => brief_beacon node') e.extra w h

/-- After a turn in time nothing is due before the event it handled. -/
theorem SimStep.notBefore {v : Nat} {s s' : Sim} {e : QueueEvent} (hstep : SimStep ops s e s')
    (hin : InTime s e) (h : NotBefore v s.world ∧ BriefWorld s.world) :
    v ≤ e.vtime.toNat ∧ NotBefore e.vtime.toNat s'.world ∧ BriefWorld s'.world := by
  obtain ⟨htests, hroom⟩ := hin
  obtain ⟨queue, tested, world, nodes, vtimeTick, hpending, htick, hdispatch, rfl⟩ :=
    hstep.turn.ran
  have hfirst := hstep.turn.first
  refine ⟨h.1 e (by rw [hpending]; exact Multiset.mem_cons_self e _), ?_⟩
  obtain ⟨new, hnew, hadded⟩ := (tick_sent htick).added
  have htested : NotBefore e.vtime.toNat tested := by
    intro f hf
    rw [hnew] at hf
    rcases Multiset.mem_add.mp hf with hf | hf
    · obtain ⟨-, hlt, k, hk, hv⟩ := hadded f hf
      rw [hv] at hlt ⊢
      rcases htests k hk with hle | hdropped
      · exact UInt64.le_iff_toNat_le.mp hle
      · rw [UInt64.le_iff_toNat_le] at hdropped
        rw [UInt64.lt_iff_toNat_lt] at hlt
        exact absurd hlt (Nat.not_lt.mpr hdropped)
    · exact hfirst f (by rw [hpending]; exact Multiset.mem_cons_of_mem hf)
  have hbrief : BriefWorld tested := by
    have hkeeps : Keeps BriefWorld (fun _ => True) (simTick s.nodes e.vtime s.vtimeTick) :=
      keeps_simTick trivial fun node _ =>
        KeptNew.keeps_nodeRouteTest (fun data _ => brief_data data)
          (briefWorld_delivers.keptNew trivial trivial)
    exact (hkeeps _ (show BriefWorld (s.world.setQueue queue) from h.2)).of_ok htick
  obtain ⟨i, node, node', -, -, hhandle, rfl⟩ := simDispatch_cases hdispatch
  exact (wp_simHandle_notBefore hroom ⟨htested, hbrief⟩).of_ok hhandle

/-! ## Every run -/

theorem simStart_notBefore {args : SimArgs} {tape : Nat → Fin randRange}
    {uninit : Nat → List UInt8} {s : Sim} (h : simStart args tape uninit = .ok s) :
    NotBefore 0 s.world ∧ BriefWorld s.world := by
  obtain ⟨topo, dims, nodes, world, -, -, hnodes, rfl⟩ := simStart_cases h
  have hkept : ∀ id, KeptTimer simCallback id vtimeZero Brief (fun _ => True)
      (fun w => NotBefore 0 w ∧ BriefWorld w) := fun _ =>
    notBefore_keptTimer (Nat.zero_le _) (by unfold ClockRoom; decide)
  have hrun : Wp (simNodes args.nodeOpts (topo.maxId.toNat + 1))
      (fun nodes w => List.Forall₂ (fun _ _ => True) (List.range (topo.maxId.toNat + 1)) nodes ∧
        NotBefore 0 w ∧ BriefWorld w) (fun _ => True)
      (simBlank topo dims (simEschaton args.timeout) tape uninit) :=
    wp_mapM (fun _ w => NotBefore 0 w ∧ BriefWorld w) (fun _ _ => True)
      (fun i _ w hw => ((hkept _).keptNewTimer.keeps_nodeInit args.nodeOpts w hw).imp
        fun _ _ h => ⟨trivial, h⟩)
      ⟨fun _ _ => Nat.zero_le _, fun p hp => absurd hp List.not_mem_nil⟩
  exact (hrun.of_ok hnodes).2

/-- In a run whose turns are all in time, the times at which events are handled never decrease. -/
theorem simTime_sorted (ops : FloatOps F) {args : SimArgs} {tape : Nat → Fin randRange}
    {uninit : Nat → List UInt8} {s₀ s : Sim} {events : List QueueEvent}
    (hstart : simStart args tape uninit = .ok s₀)
    (hrun : Run (fun s e s' => SimStep ops s e s' ∧ InTime s e) s₀ events s) :
    (events.map QueueEvent.vtime).Pairwise (· ≤ ·) := by
  have hsorted := (hrun.sorted (fun e => e.vtime.toNat)
    (fun v s => NotBefore v s.world ∧ BriefWorld s.world)
    (fun v s e s' h hstep => hstep.1.notBefore hstep.2 h) (simStart_notBefore hstart)).2
  rw [List.pairwise_map] at hsorted ⊢
  exact hsorted.imp fun h => UInt64.le_iff_toNat_le.mpr h

/-- Outcomes of `rand` that put both nodes of `twoNodes` at the origin, with timers at 0.6 s and
0.5 s and the next ones a second and a half later. -/
def lateTape : Nat → Fin randRange :=
  tapeOf [214748365, 0, 10, 10, 10, 0, 0, 0, 2147483647, 0, 0, 2147483647]

theorem simTime_sorted_twoNodes :
    ∃ s₀ s events, simStart twoNodes lateTape (fun _ => []) = .ok s₀ ∧
      Run (fun s e s' => SimStep integerOps s e s' ∧ InTime s e) s₀ events s ∧
      events.map QueueEvent.vtime = [500000, 518000, 600000, 633000] ∧
      (events.map QueueEvent.vtime).Pairwise (· ≤ ·) := by
  have hrun : (do
      let s ← simStart twoNodes lateTape fun _ => []
      let r ← simRun integerOps (fun s e => InTime s e) 10 s
      return r.1.map QueueEvent.vtime) =
        (Except.ok [500000, 518000, 600000, 633000] : Except Abort _) := by decide +kernel
  obtain ⟨s₀, hstart, hrun⟩ := bind_eq_ok hrun
  obtain ⟨⟨events, s⟩, hevents, hrun⟩ := bind_eq_ok hrun
  have hguarded : Run (fun s e s' => SimStep integerOps s e s' ∧ InTime s e) s₀ events s :=
    (simRun_run integerOps hevents).mono fun _ _ _ h => ⟨h.1, of_decide_eq_true h.2⟩
  exact ⟨s₀, s, events, hstart, hguarded, Except.ok.inj hrun,
    simTime_sorted integerOps hstart hguarded⟩

/-- Simulated time runs backwards: after the event at 2 s comes one at 1.044 s. -/
theorem simTime_backwards :
    ¬ ∀ args tape uninit s₀ s events, simStart args tape uninit = .ok s₀ →
      Run (SimStep integerOps) s₀ events s →
      (events.map QueueEvent.vtime).Pairwise (· ≤ ·) := by
  intro h
  have hrun : (do
      let s ← simStart twoNodes lateTape fun _ => []
      let r ← simRun integerOps (fun _ _ => true) 6 s
      return r.1.map QueueEvent.vtime) =
        (Except.ok [500000, 518000, 600000, 633000, 2000000, 1044000] : Except Abort _) := by
    decide +kernel
  obtain ⟨s₀, hstart, hrun⟩ := bind_eq_ok hrun
  obtain ⟨⟨events, s⟩, hevents, hrun⟩ := bind_eq_ok hrun
  have hsorted := h _ _ _ s₀ s events hstart
    ((simRun_run integerOps hevents).mono fun _ _ _ h => h.1)
  rw [show events.map QueueEvent.vtime = _ from Except.ok.inj hrun] at hsorted
  exact absurd hsorted (by decide)

end OldRadio.Second
