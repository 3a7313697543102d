import OldRadio.Second.SimDraws
import OldRadio.Second.SimNeighbours

/-!
# Neighbour tables overflow

A beacon that is recorded takes an entry for every identity in it that the table
does not have yet, and no entry is ever given back. A turn of the main loop
stops at the assertion of `neigh_table_insert` only if the beacon it hands over
brings more new identities than its receiver has entries left; a node that hears
of 51 others does stop there.
-/

namespace OldRadio.Second

open Library
open Node (M)

/-! ## Entries that a beacon takes -/

/-- Number of entries in use once some nodes have one. -/
def NeighTable.needs (table : NeighTable) (ids : Finset NodeId) : Nat :=
  table.entries.length + (ids \ table.ids).card

/-- The identities that node `id` records of a beacon. -/
def recordedIds (id : NodeId) (neighs : List Neigh) : List NodeId :=
  (beaconInserts id neighs).map fun i => i.neigh.id

theorem card_insert_sdiff {α : Type} [DecidableEq α] (a : α) (s t : Finset α) :
    (insert a s \ t).card = (if a ∈ t then 0 else 1) + (s \ insert a t).card := by
  by_cases ha : a ∈ t
  · rw [if_pos ha, Nat.zero_add, Finset.insert_sdiff_of_mem s ha, Finset.insert_eq_of_mem ha]
  · have hsplit : insert a s \ t = insert a (s \ insert a t) := by
      ext x
      by_cases hx : x = a
      · simp [hx, ha]
      · simp [hx]
    rw [if_neg ha, hsplit, Finset.card_insert_of_notMem (by simp), Nat.add_comm]

/-- One insertion and the entries taken after it are the entries taken from before it. -/
theorem neighTableInsert_needs (table : NeighTable) (neigh : Neigh) (vtime : VTime)
    (ids : Finset NodeId) :
    (neighTableInsert table neigh vtime = .error .neighTableFull ∧
        neighMax < table.needs (insert neigh.id ids)) ∨
      ∃ table', neighTableInsert table neigh vtime = .ok table' ∧
        table'.needs ids = table.needs (insert neigh.id ids) := by
  rcases neighTableInsert_ids table neigh vtime with
    ⟨herr, hnew, hlen⟩ | ⟨table', hok, hids, hlen⟩
  · refine Or.inl ⟨herr, ?_⟩
    rw [NeighTable.needs, card_insert_sdiff, if_neg hnew, hlen]
    omega
  · refine Or.inr ⟨table', hok, ?_⟩
    rw [NeighTable.needs, NeighTable.needs, card_insert_sdiff, hids, hlen, Nat.add_assoc]

/-- Insertions succeed exactly when there is room for what they need. -/
theorem insertAll_ok_iff (vtime : VTime) (inserts : List BeaconInsert) (table : NeighTable) :
    (∃ table', insertAll vtime table inserts = .ok table') ↔
      table.needs (inserts.map fun i => i.neigh.id).toFinset ≤ neighMax := by
  induction inserts generalizing table with
  | nil =>
    refine iff_of_true ⟨table, rfl⟩ ?_
    rw [List.map_nil, List.toFinset_nil, NeighTable.needs, Finset.empty_sdiff, Finset.card_empty]
    exact table.length_le
  | cons i inserts ih =>
    rw [List.map_cons, List.toFinset_cons, insertAll_cons]
    rcases neighTableInsert_needs table i.neigh vtime
      (inserts.map fun i => i.neigh.id).toFinset with ⟨herr, hfull⟩ | ⟨table₁, hok, hneeds⟩
    · rw [herr]
      refine iff_of_false ?_ (Nat.not_le.mpr hfull)
      rintro ⟨table', h⟩
      cases h
    · rw [hok, ← hneeds, ← ih table₁]
      rfl

/-- Recording a beacon fails exactly when it needs more room than there is. -/
theorem recordBeacon_error_iff {neighs : List Neigh} (hne : neighs ≠ []) (id : NodeId)
    (vtime : VTime) (table : NeighTable) :
    recordBeacon id vtime table neighs = .error .neighTableFull ↔
      neighMax < table.needs (recordedIds id neighs).toFinset := by
  rw [recordedIds, ← Nat.not_le, ← insertAll_ok_iff vtime,
    ← recordBeacon_eq_insertAll hne]
  cases hrecord : recordBeacon id vtime table neighs with
  | ok table' => exact iff_of_false (fun h => by cases h) (not_not_intro ⟨table', rfl⟩)
  | error e =>
    obtain rfl := recordBeacon_error hne hrecord
    exact iff_of_true rfl fun ⟨_, h⟩ => by cases h

/-! ## Room for the next event -/

instance (node : Node) (data : List UInt8) : Decidable (node.Records data) :=
  inferInstanceAs (Decidable (¬ _))

/-- The table of a node has room for what the node records of a packet. -/
def Node.RoomFor (node : Node) (data : List UInt8) : Prop :=
  ∀ neighs, beaconParse data = .ok neighs → data.headD 0 = packetTypeBeacon →
    node.Records data → node.neighTable.needs (recordedIds node.id neighs).toFinset ≤ neighMax

instance (node : Node) (data : List UInt8) : Decidable (node.RoomFor data) :=
  match h : beaconParse data with
  | .ok neighs => decidable_of_iff
      (data.headD 0 = packetTypeBeacon → node.Records data →
        node.neighTable.needs (recordedIds node.id neighs).toFinset ≤ neighMax)
      ⟨fun hroom neighs' h' => by
        cases h.symm.trans h'
        exact hroom, fun hroom => hroom neighs h⟩
  | .error _ => isTrue fun _ h' => by cases h.symm.trans h'

/-- The node that the next turn hands a packet to, and the bytes of the packet. -/
def nextReception (s : Sim) : Option (Node × List UInt8) := do
  let (e, _) ← s.world.front.queue.pop.toOption
  let i ← e.node
  let node ← s.nodes[i]?
  let ptr ← e.packet
  let packet ← s.world.heap[ptr]?
  return (node, packet.data)

/-- The next turn hands no node a beacon with more new identities than it has entries left. -/
def Sim.HasRoom (s : Sim) : Prop := ∀ r ∈ nextReception s, r.1.RoomFor r.2

instance (s : Sim) : Decidable s.HasRoom := inferInstanceAs (Decidable (∀ r ∈ nextReception s, _))

/-! ## One turn -/

/-- Sending and timer requests of a node stop for other reasons. -/
theorem room_keptNewTimer (id : NodeId) (vtime : VTime) :
    KeptNewTimer simCallback id vtime (fun _ => True) (· ≠ .neighTableFull) fun _ => True where
  toKeptNew :=
    Delivers.keptNew
      { skip := fun _ _ => trivial
        push := fun _ _ _ _ => trivial
        poke := fun _ _ _ _ _ _ => trivial
        deliver := fun _ _ _ _ _ _ _ _ _ _ _ => trivial } (by decide) (by decide)
  timer _ _ _ _ _ := wp_simCallback_timer (by decide) (fun _ => trivial) fun _ _ _ => trivial

variable {F : Type} {ops : FloatOps F} {topo : Topo}

/-- A node with room for the packet it is handed does not stop at its table. -/
theorem wp_simHandle_room {node : Node} {e : QueueEvent} {held : Multiset QueueEvent}
    {w : World SimFront} (hsound : SoundWorld topo held w) (he : e ∈ held)
    (hroom : ∀ ptr packet, e.packet = some ptr → w.heap[ptr]? = some packet →
      node.RoomFor packet.data) :
    Wp (simHandle ops node e) (fun _ _ => True) (· ≠ .neighTableFull) w := by
  have hkept := room_keptNewTimer node.id e.vtime
  unfold simHandle
  cases hptr : e.packet with
  | some ptr =>
    obtain ⟨p, src, dst, hp, hsent, -, -⟩ :=
      hsound.sent e (Multiset.mem_add.mpr (Or.inl he)) ptr hptr
    dsimp only
    rw [wp_bind]
    refine (hkept.wp_nodeReceive (fun _ _ _ => trivial) hp (fun _ => by decide) ?_ ?_
      (fun _ _ => by decide) ?_ trivial).imp fun node' w' _ => ?_
    · intro e' _ herr
      rcases beaconParse_error herr with rfl | rfl
      · decide
      · decide
    · intro neighs htype hparse hrecords hfull
      have hneeds := hroom ptr p hptr hp neighs hparse htype hrecords
      have hover := (recordBeacon_error_iff (beaconParse_ne_nil hparse) _ _ _).mp hfull
      exact absurd hover (Nat.not_lt.mpr hneeds)
    · intro hflood
      rcases hsent.2 with hd | ⟨hb, -⟩
      · rw [hd] at hflood
        exact absurd hflood (by decide)
      · rw [hb] at hflood
        exact absurd hflood (by decide)
    · rw [wp_bind, packetFree, wp_bind]
      exact wp_packetRead (by decide) fun _ _ => trivial
  | none => exact hkept.keeps_nodeTimer (fun _ _ => trivial) e.extra w trivial

/-- A turn with room does not stop at a full table. -/
theorem simStep_room {s : Sim} (hsound : SoundSim topo s) (hroom : s.HasRoom) :
    simStep ops s ≠ .error .neighTableFull := by
  intro herr
  rcases s.world.front.queue.pop_cases with ⟨-, hpop⟩ | ⟨e, queue, hpop, hqueue, -⟩
  · rw [simStep, hpop, ok_bind] at herr
    cases herr
  rw [simStep, hpop, ok_bind] at herr
  dsimp only at herr
  split at herr
  · cases herr
  have hpending : s.world.pending = e ::ₘ queue.pending := hqueue
  have hheld : SoundWorld topo {e} (s.world.setQueue queue) := hsound.1.hold hpending
  rcases bind_eq_error herr with htick | ⟨⟨vtimeTick, tested⟩, htick, herr⟩
  · have hkeeps : Keeps (fun _ => True) (· ≠ .neighTableFull)
        (simTick s.nodes e.vtime s.vtimeTick) := keeps_simTick (by decide) fun node _ =>
      KeptNew.keeps_nodeRouteTest (fun _ _ => trivial) (room_keptNewTimer _ _).toKeptNew
    exact (hkeeps _ trivial).of_error htick rfl
  rcases bind_eq_error herr with hdispatch | ⟨_, -, herr⟩
  · rcases simDispatch_error hdispatch with herr | ⟨i, node, hi, hnode, hhandle⟩
    · cases herr
    refine (wp_simHandle_room (hheld.tick htick) (Multiset.mem_singleton_self e)
      fun ptr packet hptr hpacket => ?_).of_error hhandle rfl
    have he : e ∈ 0 + s.world.pending := by
      rw [Multiset.zero_add, hpending]
      exact Multiset.mem_cons_self e _
    obtain ⟨p, -, -, hp, -⟩ := hsound.1.sent e he ptr hptr
    obtain ⟨p', hp', hdata⟩ := (tick_sent htick).after.heap ptr p hp
    obtain rfl : p' = packet := Option.some.inj (hp'.symm.trans hpacket)
    rw [hdata]
    refine hroom (node, p.data) ?_
    simp [nextReception, hpop, Except.toOption, hi, hnode, hptr, hp]
  · cases herr

/-! ## The start and every run -/

/-- The start does not stop at a full table. -/
theorem simStart_room (args : SimArgs) (tape : Nat → Fin randRange) (uninit : Nat → List UInt8) :
    simStart args tape uninit ≠ .error .neighTableFull := by
  intro herr
  unfold simStart at herr
  rcases bind_eq_error herr with htopo | ⟨topo, -, herr⟩
  · cases topoRead_error htopo
  rcases bind_eq_error herr with hdims | ⟨dims, -, herr⟩
  · cases hargs : args.dims with
    | none =>
      rw [hargs] at hdims
      cases hdims
    | some d =>
      rw [hargs, simDims, locSetDims] at hdims
      split at hdims
      · cases hdims
      · cases hdims
  rcases bind_eq_error herr with hnodes | ⟨_, -, herr⟩
  · have hrun : Wp (simNodes args.nodeOpts (topo.maxId.toNat + 1))
        (fun nodes _ => List.Forall₂ (fun _ _ => True) (List.range (topo.maxId.toNat + 1)) nodes ∧
          True) (· ≠ .neighTableFull)
        (simBlank topo dims (simEschaton args.timeout) tape uninit) :=
      wp_mapM (fun _ _ => True) (fun _ _ => True) (fun i _ w _ =>
        ((room_keptNewTimer _ _).keeps_nodeInit args.nodeOpts w trivial).imp
          fun _ _ _ => ⟨trivial, trivial⟩) trivial
    exact hrun.of_error hnodes rfl
  · cases herr

/-- The start of the simulator and the turns of every run that has had room at each turn do not stop
at a full neighbour table. -/
theorem neighTables_room (ops : FloatOps F) {args : SimArgs} {tape : Nat → Fin randRange}
    {uninit : Nat → List UInt8} :
    simStart args tape uninit ≠ .error .neighTableFull ∧
      ∀ s₀ events s, simStart args tape uninit = .ok s₀ →
        Run (fun s e s' => SimStep ops s e s' ∧ s.HasRoom) s₀ events s → s.HasRoom →
        simStep ops s ≠ .error .neighTableFull := by
  refine ⟨simStart_room args tape uninit, fun s₀ events s hstart hrun hroom => ?_⟩
  obtain ⟨topo, -, hsound⟩ := soundSim_start hstart
  exact simStep_room (hrun.keeps (fun _ _ _ hs hstep => hs.step hstep.1) hsound) hroom

theorem neighTables_room_twoNodes :
    ∃ s₀ s events r, simStart twoNodes (fun _ => 0) (fun _ => []) = .ok s₀ ∧
      Run (fun s e s' => SimStep integerOps s e s' ∧ s.HasRoom) s₀ events s ∧
      nextReception s = some r ∧ simStep integerOps s ≠ .error .neighTableFull := by
  have hrun : (do
      let s ← simStart twoNodes (fun _ => 0) fun _ => []
      let r ← simRun integerOps (fun s _ => s.HasRoom) 2 s
      return decide (r.2.HasRoom ∧ (nextReception r.2).isSome)) =
        (Except.ok true : Except Abort _) := by decide +kernel
  obtain ⟨s₀, hstart, hrun⟩ := bind_eq_ok hrun
  obtain ⟨⟨events, s⟩, hevents, hrun⟩ := bind_eq_ok hrun
  obtain ⟨hroom, hnext⟩ := of_decide_eq_true (Except.ok.inj hrun)
  obtain ⟨r, hr⟩ := Option.isSome_iff_exists.mp hnext
  have hguarded : Run (fun s e s' => SimStep integerOps s e s' ∧ s.HasRoom) s₀ events s :=
    (simRun_run integerOps hevents).mono fun _ _ _ h => ⟨h.1, of_decide_eq_true h.2⟩
  exact ⟨s₀, s, events, r, hstart, hguarded, hr,
    (neighTables_room integerOps).2 s₀ events s hstart hguarded hroom⟩

/-- A node that hears `n` others, which do not hear it, all awake from the start. -/
def listener (n : Nat) : SimArgs where
  links := (List.range n).map fun i => { src := UInt16.ofNat (i + 1), dst := 0, prob := 0 }
  timeout := some 1
  dims := some 1
  nodeOpts := ['A']

/-- A node that hears 51 others stops at the beacon of the last one. -/
theorem neighTables_listener :
    ¬ ∀ args tape uninit s₀ events s, simStart args tape uninit = .ok s₀ →
      Run (SimStep integerOps) s₀ events s → simStep integerOps s ≠ .error .neighTableFull := by
  intro h
  have hrun : (do
      let s ← simStart (listener 51) (fun _ => 0) fun _ => []
      let r ← simRun integerOps (fun _ _ => true) 102 s
      return match simStep integerOps r.2 with
        | .error e => some e
        | .ok _ => none) = (Except.ok (some .neighTableFull) : Except Abort _) := by
    decide +kernel
  obtain ⟨s₀, hstart, hrun⟩ := bind_eq_ok hrun
  obtain ⟨⟨events, s⟩, hevents, hrun⟩ := bind_eq_ok hrun
  have hlast := Except.ok.inj hrun
  split at hlast
  · rename_i e herr
    cases hlast
    exact h _ _ _ s₀ events s hstart ((simRun_run integerOps hevents).mono fun _ _ _ h => h.1) herr
  · cases hlast

end OldRadio.Second
