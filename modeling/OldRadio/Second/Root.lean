import OldRadio.Second.SimTimers

/-!
# Where the root is

Node 0 starts as root at the origin, and data packets for it are addressed
there. It never wakes, so receiving leaves it where it is. Its timer recomputes
its location like that of any other node, which moves it as soon as it knows a
neighbour somewhere else.
-/

namespace OldRadio.Second

open Library
open Node (M)

section Place

variable {F Front : Type} {ops : FloatOps F} {callback : NodeCallback Front} {node : Node}
  {vtime : VTime} {w : World Front}

/-- A node keeps its status and its location. -/
def SamePlace (node node' : Node) : Prop :=
  node'.status = node.status ∧ node'.virtloc = node.virtloc

private theorem wp_samePlace {α : Type} {m : M Front α} {node' : Node}
    (h : SamePlace node node') :
    Wp m (fun _ _ => SamePlace node node') (fun _ => True) w :=
  (wp_true m w).imp fun _ _ _ => h

/-- A node that is not asleep stays where it is when it receives. -/
theorem wp_nodeReceive_samePlace {ptr : Nat} (hasleep : node.status ≠ .asleep) :
    Wp (nodeReceive callback node vtime ptr) (fun node' _ => SamePlace node node')
      (fun _ => True) w := by
  refine wp_nodeReceive_read trivial fun packet hp => ?_
  have hquiet : node.wakesOn packet = false :=
    Bool.eq_false_iff.mpr fun hwakes => hasleep (Node.asleep_of_wakesOn hwakes)
  refine (wp_nodeReceive_quiet hp hquiet).imp fun node' _ hnode' => ?_
  obtain ⟨neighTable, floodTimeout, rfl⟩ := hnode'
  exact ⟨rfl, rfl⟩

/-- A node that is not waking stays where it is at a timer if it has no energy there. -/
theorem wp_nodeTimer_samePlace {extra : Option Nat} (hwaking : node.status ≠ .waking)
    (hstill : ops.isZero (energy ops node.virtloc node.neighTable) = true) :
    Wp (nodeTimer ops callback node vtime extra) (fun node' _ => SamePlace node node')
      (fun _ => True) w := by
  rw [nodeTimer, wp_bind, wp_nodeTimerStatus_of_not fun h => hwaking h.1, wp_bind,
    nodeVirtlocRecalc, virtlocRecalc, if_pos hstill, wp_bind, wp_pure, wp_pure, wp_bind]
  refine (wp_true _ _).imp fun _ _ _ => ?_
  rw [wp_bind, wp_rand, wp_bind]
  exact wp_samePlace ⟨rfl, rfl⟩

end Place

variable {F : Type} {ops : FloatOps F}

/-- Node 0 is the root and is at the origin. -/
def RootAtOrigin (nodes : List Node) : Prop :=
  ∃ root, nodes[0]? = some root ∧ root.status = .root ∧ root.virtloc = locZero

/-- The event is no timer of node 0, or the root is where `virtloc_recalc` returns at once. -/
def RootStill (ops : FloatOps F) (s : Sim) (e : QueueEvent) : Prop :=
  e.packet = none → e.node = some 0 → ∀ root, s.nodes[0]? = some root →
    ops.isZero (energy ops root.virtloc root.neighTable) = true

instance (ops : FloatOps F) (s : Sim) (e : QueueEvent) : Decidable (RootStill ops s e) :=
  inferInstanceAs (Decidable (_ → _ → ∀ root, s.nodes[0]? = some root → _))

/-- Handling an event leaves the root where it is, unless its timer moves it. -/
theorem RootAtOrigin.step {s s' : Sim} {e : QueueEvent} (h : RootAtOrigin s.nodes)
    (hstep : SimStep ops s e s') (hstill : RootStill ops s e) : RootAtOrigin s'.nodes := by
  obtain ⟨root, hroot, hstatus, hplace⟩ := h
  obtain ⟨queue, tested, world, nodes, vtimeTick, -, -, hdispatch, rfl⟩ := hstep.turn.ran
  obtain ⟨i, node, node', hi, hnode, hhandle, rfl⟩ := simDispatch_cases hdispatch
  rcases Nat.eq_zero_or_pos i with rfl | hpos
  · obtain rfl : root = node := Option.some.inj (hroot.symm.trans hnode)
    have hsame : SamePlace root node' := by
      have hwp : Wp (simHandle ops root e) (fun node' _ => SamePlace root node')
          (fun _ => True) tested := by
        rw [simHandle]
        split
        · rw [wp_bind]
          refine (wp_nodeReceive_samePlace (by rw [hstatus]; decide)).imp fun node' w' hnode' => ?_
          rw [wp_bind]
          exact wp_samePlace hnode'
        · rename_i hpacket
          exact wp_nodeTimer_samePlace (by rw [hstatus]; decide) (hstill hpacket hi root hroot)
      exact hwp.of_ok hhandle
    have hlength : 0 < s.nodes.length := (List.getElem?_eq_some_iff.mp hnode).1
    exact ⟨node', List.getElem?_set_self hlength, hsame.1.trans hstatus, hsame.2.trans hplace⟩
  · exact ⟨root, (List.getElem?_set_ne hpos.ne').trans hroot, hstatus, hplace⟩

/-- With node option `R`, node 0 starts as root at the origin. -/
theorem rootAtOrigin_start {args : SimArgs} {tape : Nat → Fin randRange}
    {uninit : Nat → List UInt8} {s : Sim} (h : simStart args tape uninit = .ok s)
    (hopts : 'R' ∈ args.nodeOpts) : RootAtOrigin s.nodes := by
  obtain ⟨topo, dims, nodes, world, -, -, hnodes, rfl⟩ := simStart_cases h
  have hrun : Wp (simNodes args.nodeOpts (topo.maxId.toNat + 1))
      (fun nodes _ => List.Forall₂
        (fun i (node : Node) => i = 0 → node.status = .root ∧ node.virtloc = locZero)
        (List.range (topo.maxId.toNat + 1)) nodes ∧ True) (fun _ => True)
      (simBlank topo dims (simEschaton args.timeout) tape uninit) := by
    refine wp_mapM (fun _ _ => True) _ (fun i _ w _ => ?_) trivial
    rcases Nat.eq_zero_or_pos i with rfl | hpos
    · have hroot : 'R' ∈ args.nodeOpts ∧ UInt16.ofNat 0 = 0 := ⟨hopts, rfl⟩
      rw [nodeInit, virtlocInit, if_pos hroot.2, wp_bind, wp_pure, if_pos hroot,
        wp_nodeSetStatus_root]
      exact (wp_true _ _).imp fun _ _ _ => ⟨fun _ => ⟨rfl, rfl⟩, trivial⟩
    · exact (wp_true _ _).imp fun _ _ _ => ⟨fun h0 => absurd h0 hpos.ne', trivial⟩
  obtain ⟨hall, -⟩ := hrun.of_ok hnodes
  rw [List.range_succ_eq_map] at hall
  cases hall with
  | cons hroot _ => exact ⟨_, rfl, (hroot rfl).1, (hroot rfl).2⟩

/-- In a run whose timers of node 0 all find it without energy, the root stays at the origin. -/
theorem root_stays (ops : FloatOps F) {args : SimArgs} {tape : Nat → Fin randRange}
    {uninit : Nat → List UInt8} {s₀ s : Sim} {events : List QueueEvent}
    (hstart : simStart args tape uninit = .ok s₀) (hopts : 'R' ∈ args.nodeOpts)
    (hrun : Run (fun s e s' => SimStep ops s e s' ∧ RootStill ops s e) s₀ events s) :
    RootAtOrigin s.nodes :=
  hrun.keeps (I := fun s => RootAtOrigin s.nodes)
    (fun _ _ _ h hstep => h.step hstep.1 hstep.2) (rootAtOrigin_start hstart hopts)

/-- A root that has heard of no one: no event of the first second moves it. -/
theorem root_stays_oneSecond :
    ∃ s₀ s events, simStart (rootAndSleeper (some 1)) (fun _ => 0) (fun _ => []) = .ok s₀ ∧
      Run (fun s e s' => SimStep integerOps s e s' ∧ RootStill integerOps s e) s₀ events s ∧
      events.length = 6 ∧ RootAtOrigin s.nodes := by
  have hrun : (do
      let s ← simStart (rootAndSleeper (some 1)) (fun _ => 0) fun _ => []
      let r ← simRun integerOps (fun s e => decide (RootStill integerOps s e)) 6 s
      return r.1.length) = (Except.ok 6 : Except Abort _) := by decide +kernel
  obtain ⟨s₀, hstart, hrun⟩ := bind_eq_ok hrun
  obtain ⟨⟨events, s⟩, hevents, hrun⟩ := bind_eq_ok hrun
  have hguarded : Run (fun s e s' => SimStep integerOps s e s' ∧ RootStill integerOps s e)
      s₀ events s :=
    (simRun_run integerOps hevents).mono fun _ _ _ h => ⟨h.1, of_decide_eq_true h.2⟩
  exact ⟨s₀, s, events, hstart, hguarded, Except.ok.inj hrun,
    root_stays integerOps hstart (by decide) hguarded⟩

/-- Once the root has heard of a neighbour elsewhere, its timer moves it there. -/
theorem root_moves :
    ¬ ∀ args tape uninit s, 'R' ∈ args.nodeOpts → SimReachable integerOps args tape uninit s →
      RootAtOrigin s.nodes := by
  intro h
  have hrun : (do
      let s ← simStart (rootAndSleeper none) (fun _ => 0) fun _ => []
      let r ← simRun integerOps (fun _ _ => true) 7 s
      return r.2.nodes[0]?.map fun root => root.virtloc.x) =
        (Except.ok (some (-5)) : Except Abort (Option Int32)) := by decide +kernel
  obtain ⟨s₀, hstart, hrun⟩ := bind_eq_ok hrun
  obtain ⟨⟨events, s⟩, hevents, hrun⟩ := bind_eq_ok hrun
  obtain ⟨root, hroot, -, hplace⟩ :=
    h (rootAndSleeper none) _ _ s (by decide) (.of_simRun integerOps hstart hevents)
  have hmoved := Except.ok.inj hrun
  rw [hroot, Option.map_some, hplace] at hmoved
  exact absurd hmoved (by decide)

end OldRadio.Second
