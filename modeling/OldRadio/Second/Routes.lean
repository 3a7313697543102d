import Mathlib.Combinatorics.SimpleGraph.Connectivity.Connected
import OldRadio.Library.Trail
import OldRadio.Second.Sim

/-!
# Routes

A route asks one node after the other for the next hop towards a destination.
With neighbours only, every hop is nearer to the destination than the node that
chose it, so no node comes twice. A node that looks two hops ahead aims at a
target of its own and hands to the neighbour nearest to it; its measure is how
far its target is. It goes down as long as that neighbour is linked to the target
and no neighbour is as near as the target; without this a route may turn back.
-/

namespace OldRadio.Second

open Library
open Node (M)

/-! ## Hops -/

/-- The node behind an identity, as the simulator finds it. -/
def nodeAt (nodes : List Node) (id : NodeId) : Option Node := nodes[id.toNat]?

/-- The next hop from a node on a route; the destination counts even if its identity is the
invalid one. -/
def routeNext (net : NodeId → Option Node) (node2 : NodeId) (loc : Loc) (maxstrat : Int)
    (hop : NodeId) : Option NodeId :=
  match net hop with
  | none => none
  | some node =>
    let hop := nodeRouteMfr node node2 loc maxstrat
    if hop = node2 then some hop
    else if hop = nodeIdInvalid then none
    else some hop

/-- The hops of a route, up to the destination, a node that knows no next one, or the last turn. -/
def routeHops (net : NodeId → Option Node) (node2 : NodeId) (loc : Loc) (maxstrat : Int) :
    Nat → NodeId → List NodeId :=
  trail (routeNext net node2 loc maxstrat) (· = node2)

theorem routeNext_eq_some {net : NodeId → Option Node} {node2 hop next : NodeId} {loc : Loc}
    {maxstrat : Int} (h : routeNext net node2 loc maxstrat hop = some next) :
    ∃ node, net hop = some node ∧ nodeRouteMfr node node2 loc maxstrat = next ∧
      (next = node2 ∨ next ≠ nodeIdInvalid) := by
  unfold routeNext at h
  cases hnode : net hop with
  | none =>
    rw [hnode] at h
    cases h
  | some node =>
    rw [hnode] at h
    dsimp only at h
    refine ⟨node, rfl, ?_⟩
    split at h
    · rename_i hdest
      cases h
      exact ⟨rfl, Or.inl hdest⟩
    · split at h
      · cases h
      · rename_i hvalid
        cases h
        exact ⟨rfl, Or.inr hvalid⟩

/-- `sim_route_test_one` counts the hops of a route that reaches its destination. -/
theorem routeTestLoop_hops {nodes : List Node} {node2 hop : NodeId} {loc : Loc} {maxstrat : Int}
    {turns i r : Nat} (h : routeTestLoop nodes node2 loc maxstrat turns i hop = .ok r) :
    r = if (routeHops (nodeAt nodes) node2 loc maxstrat turns hop).getLast? = some node2 then
      i + (routeHops (nodeAt nodes) node2 loc maxstrat turns hop).length - 1 else 0 := by
  induction turns generalizing i hop with
  | zero =>
    cases h
    rfl
  | succ turns ih =>
    rw [routeTestLoop] at h
    obtain ⟨node, hnode, h⟩ := bind_eq_ok h
    have hat : nodeAt nodes hop = some node := by
      unfold nodeAt
      cases hget : nodes[hop.toNat]? with
      | none =>
        rw [hget] at hnode
        cases hnode
      | some node' =>
        rw [hget] at hnode
        exact congrArg some (Except.ok.inj hnode)
    dsimp only at h
    split at h
    · rename_i hdest
      have hnext : routeNext (nodeAt nodes) node2 loc maxstrat hop = some node2 := by
        rw [routeNext, hat]
        exact (if_pos hdest).trans (congrArg some hdest)
      cases h
      rw [routeHops, trail_succ _ hnext, if_pos rfl]
      simp
    · rename_i hdest
      split at h
      · rename_i hinvalid
        have hnext : routeNext (nodeAt nodes) node2 loc maxstrat hop = none := by
          rw [routeNext, hat]
          exact (if_neg hdest).trans (if_pos hinvalid)
        cases h
        rw [routeHops, trail_of_none _ hnext]
        rfl
      · rename_i hvalid
        have hnext : routeNext (nodeAt nodes) node2 loc maxstrat hop =
            some (nodeRouteMfr node node2 loc maxstrat) := by
          rw [routeNext, hat]
          exact (if_neg hdest).trans (if_neg hvalid)
        have hlater := ih h
        rw [routeHops] at hlater ⊢
        rw [trail_succ _ hnext, if_neg hdest, hlater]
        generalize trail (routeNext (nodeAt nodes) node2 loc maxstrat) (· = node2) turns
          (nodeRouteMfr node node2 loc maxstrat) = rest
        cases rest with
        | nil => simp [hdest]
        | cons y rest =>
          simp only [List.getLast?_cons_cons, List.length_cons]
          split
          · omega
          · rfl

/-! ## Targets -/

/-- The entry that `node_route_mfr` aims at. -/
def routeTarget (node : Node) (destId : NodeId) (destLoc : Loc) (maxstrat : Int) : Option Neigh :=
  routeLoop destId destLoc maxstrat (neighIter node.neighTable) (locDist2 node.virtloc destLoc) none

/-- No entry in reach is the destination or nearer than `bound`. -/
def NoneBetter (destId : NodeId) (destLoc : Loc) (maxstrat : Int) (neighs : List Neigh)
    (bound : UInt64) : Prop :=
  ∀ m ∈ neighs, (m.stratum.toNat : Int) ≤ maxstrat →
    m.id ≠ destId ∧ bound ≤ locDist2 m.loc destLoc

/-- Why the loop of `node_route_mfr` ends with an entry: it is the destination, or it is nearer
than `bound` and no entry in reach is nearer. -/
structure Aims (destId : NodeId) (destLoc : Loc) (maxstrat : Int) (neighs : List Neigh)
    (bound : UInt64) (n : Neigh) : Prop where
  /-- It is one of the entries. -/
  mem : n ∈ neighs
  /-- It is in reach. -/
  inReach : (n.stratum.toNat : Int) ≤ maxstrat
  /-- It is chosen for its identity or its distance. -/
  chosen : n.id = destId ∨ locDist2 n.loc destLoc < bound ∧
    NoneBetter destId destLoc maxstrat neighs (locDist2 n.loc destLoc)

/-- Which entry the loop of `node_route_mfr` ends with, `bound` being how far the node is itself. -/
inductive Chosen (destId : NodeId) (destLoc : Loc) (maxstrat : Int) (neighs : List Neigh)
    (bound : UInt64) (n : Neigh) : Prop where
  /-- The first entry in reach that is the destination. -/
  | listed {before after : List Neigh} (split : neighs = before ++ n :: after)
      (inReach : (n.stratum.toNat : Int) ≤ maxstrat) (id : n.id = destId)
      (first : ∀ m ∈ before, (m.stratum.toNat : Int) ≤ maxstrat → m.id ≠ destId)
  /-- If none is, the first of the nearest entries in reach, provided it is nearer than the node. -/
  | nearest {before after : List Neigh} (split : neighs = before ++ n :: after)
      (inReach : (n.stratum.toNat : Int) ≤ maxstrat)
      (unlisted : ∀ m ∈ neighs, (m.stratum.toNat : Int) ≤ maxstrat → m.id ≠ destId)
      (nearer : locDist2 n.loc destLoc < bound)
      (first : ∀ m ∈ before, (m.stratum.toNat : Int) ≤ maxstrat →
        locDist2 n.loc destLoc < locDist2 m.loc destLoc)
      (least : ∀ m ∈ after, (m.stratum.toNat : Int) ≤ maxstrat →
        locDist2 n.loc destLoc ≤ locDist2 m.loc destLoc)

section Targets

variable {destId : NodeId} {destLoc : Loc} {maxstrat : Int} {neighs : List Neigh}

theorem NoneBetter.cons {m : Neigh} {bound : UInt64}
    (h : NoneBetter destId destLoc maxstrat neighs bound)
    (hm : (m.stratum.toNat : Int) ≤ maxstrat → m.id ≠ destId ∧ bound ≤ locDist2 m.loc destLoc) :
    NoneBetter destId destLoc maxstrat (m :: neighs) bound := by
  intro m' hm'
  rcases List.mem_cons.mp hm' with rfl | hm'
  · exact hm
  · exact h m' hm'

/-- An entry in front changes no choice if it is out of reach, or neither the destination nor
nearer than the bound. -/
theorem Chosen.cons {m n : Neigh} {bound : UInt64}
    (h : Chosen destId destLoc maxstrat neighs bound n)
    (hm : (m.stratum.toNat : Int) ≤ maxstrat → m.id ≠ destId ∧ bound ≤ locDist2 m.loc destLoc) :
    Chosen destId destLoc maxstrat (m :: neighs) bound n := by
  cases h with
  | @listed before after split inReach id first =>
    have hsplit : m :: neighs = (m :: before) ++ n :: after := by rw [split, List.cons_append]
    exact .listed hsplit inReach id (List.forall_mem_cons.mpr ⟨fun hreach => (hm hreach).1, first⟩)
  | @nearest before after split inReach unlisted nearer first least =>
    have hsplit : m :: neighs = (m :: before) ++ n :: after := by rw [split, List.cons_append]
    refine .nearest hsplit inReach ?_ nearer ?_ least
    · exact List.forall_mem_cons.mpr ⟨fun hreach => (hm hreach).1, unlisted⟩
    · exact List.forall_mem_cons.mpr
        ⟨fun hreach => UInt64.lt_of_lt_of_le nearer (hm hreach).2, first⟩

theorem Chosen.mono {n : Neigh} {bound bound' : UInt64} (hle : bound ≤ bound')
    (h : Chosen destId destLoc maxstrat neighs bound n) :
    Chosen destId destLoc maxstrat neighs bound' n := by
  cases h with
  | listed split inReach id first => exact .listed split inReach id first
  | nearest split inReach unlisted nearer first least =>
    exact .nearest split inReach unlisted (UInt64.lt_of_lt_of_le nearer hle) first least

/-- How the loop of `node_route_mfr` ends: with an entry it chooses, or with the one it had. -/
theorem routeLoop_chosen (destId : NodeId) (destLoc : Loc) (maxstrat : Int) (neighs : List Neigh)
    (bound : UInt64) (before : Option Neigh) :
    (∃ n, routeLoop destId destLoc maxstrat neighs bound before = some n ∧
      Chosen destId destLoc maxstrat neighs bound n) ∨
    routeLoop destId destLoc maxstrat neighs bound before = before ∧
      NoneBetter destId destLoc maxstrat neighs bound := by
  induction neighs generalizing bound before with
  | nil => exact Or.inr ⟨rfl, fun m hm => absurd hm List.not_mem_nil⟩
  | cons m rest ih =>
    rw [routeLoop]
    split
    · rename_i hreach
      split
      · rename_i hdest
        refine Or.inl ⟨m, rfl, .listed (List.nil_append _).symm hreach hdest ?_⟩
        exact fun m' hm' => absurd hm' List.not_mem_nil
      · rename_i hother
        dsimp only
        split
        · rename_i hless
          refine Or.inl ?_
          rcases ih (locDist2 m.loc destLoc) (some m) with ⟨n, hrun, hchosen⟩ | ⟨hrun, hbest⟩
          · exact ⟨n, hrun,
              (hchosen.cons fun _ => ⟨hother, UInt64.le_refl _⟩).mono (UInt64.le_of_lt hless)⟩
          · refine ⟨m, hrun, .nearest (List.nil_append _).symm hreach ?_ hless ?_ ?_⟩
            · exact List.forall_mem_cons.mpr
                ⟨fun _ => hother, fun m' hm' hreach' => (hbest m' hm' hreach').1⟩
            · exact fun m' hm' => absurd hm' List.not_mem_nil
            · exact fun m' hm' hreach' => (hbest m' hm' hreach').2
        · rename_i hnotLess
          have hm : bound ≤ locDist2 m.loc destLoc := UInt64.not_lt.mp hnotLess
          rcases ih bound before with ⟨n, hrun, hchosen⟩ | ⟨hrun, hbest⟩
          · exact Or.inl ⟨n, hrun, hchosen.cons fun _ => ⟨hother, hm⟩⟩
          · exact Or.inr ⟨hrun, hbest.cons fun _ => ⟨hother, hm⟩⟩
    · rename_i hbeyond
      rcases ih bound before with ⟨n, hrun, hchosen⟩ | ⟨hrun, hbest⟩
      · exact Or.inl ⟨n, hrun, hchosen.cons fun hreach => absurd hreach hbeyond⟩
      · exact Or.inr ⟨hrun, hbest.cons fun hreach => absurd hreach hbeyond⟩

/-- A chosen entry is one to aim at. -/
theorem Chosen.aims {n : Neigh} {bound : UInt64}
    (h : Chosen destId destLoc maxstrat neighs bound n) :
    Aims destId destLoc maxstrat neighs bound n := by
  cases h with
  | listed split inReach id first =>
    exact ⟨by rw [split]; exact List.mem_append_cons_self, inReach, Or.inl id⟩
  | nearest split inReach unlisted nearer first least =>
    refine ⟨by rw [split]; exact List.mem_append_cons_self, inReach, Or.inr ⟨nearer, ?_⟩⟩
    intro m hm hreach
    refine ⟨unlisted m hm hreach, ?_⟩
    rw [split, List.mem_append, List.mem_cons] at hm
    rcases hm with hbefore | rfl | hafter
    · exact UInt64.le_of_lt (first m hbefore hreach)
    · exact UInt64.le_refl _
    · exact least m hafter hreach

/-- The target of a node is the entry that its loop chooses. -/
theorem chosen_of_routeTarget {node : Node} {t : Neigh}
    (h : routeTarget node destId destLoc maxstrat = some t) :
    Chosen destId destLoc maxstrat (neighIter node.neighTable) (locDist2 node.virtloc destLoc)
      t := by
  rcases routeLoop_chosen destId destLoc maxstrat (neighIter node.neighTable)
    (locDist2 node.virtloc destLoc) none with ⟨n, hrun, hchosen⟩ | ⟨hrun, -⟩
  · obtain rfl : n = t := Option.some.inj (hrun.symm.trans h)
    exact hchosen
  · cases hrun.symm.trans h

/-- A node aims at its destination if it knows it, or at the nearest entry that is nearer than the
node itself. -/
theorem aims_of_routeTarget {node : Node} {t : Neigh}
    (h : routeTarget node destId destLoc maxstrat = some t) :
    Aims destId destLoc maxstrat (neighIter node.neighTable) (locDist2 node.virtloc destLoc) t :=
  (chosen_of_routeTarget h).aims

/-- A node that knows a better place aims somewhere. -/
theorem exists_routeTarget {node : Node} {m : Neigh} (hm : m ∈ neighIter node.neighTable)
    (hreach : (m.stratum.toNat : Int) ≤ maxstrat)
    (hbetter : m.id = destId ∨ locDist2 m.loc destLoc < locDist2 node.virtloc destLoc) :
    ∃ t, routeTarget node destId destLoc maxstrat = some t ∧
      (t.id = destId ∨ m.id ≠ destId ∧ locDist2 t.loc destLoc ≤ locDist2 m.loc destLoc) := by
  rcases routeLoop_chosen destId destLoc maxstrat (neighIter node.neighTable)
    (locDist2 node.virtloc destLoc) none with ⟨t, hrun, hchosen⟩ | ⟨-, hbest⟩
  · exact ⟨t, hrun, hchosen.aims.chosen.imp_right fun hdist => hdist.2 m hm hreach⟩
  · obtain ⟨hother, hle⟩ := hbest m hm hreach
    rcases hbetter with hdest | hless
    · exact absurd hdest hother
    · exact absurd hless (UInt64.not_lt.mpr hle)

/-- A target is a neighbour or, with two hops in reach, one hop further. -/
theorem Aims.stratum {bound : UInt64} {t : Neigh}
    (h : Aims destId destLoc maxstrat neighs bound t) (hmax : maxstrat ≤ 2)
    (hzero : ∀ n ∈ neighs, n.stratum ≠ 0) :
    t.stratum = 1 ∨ t.stratum = 2 ∧ maxstrat = 2 := by
  have hpos : t.stratum.toNat ≠ 0 := fun h0 => hzero t h.mem (UInt8.toNat_inj.mp h0)
  have hreach := h.inReach
  rcases (show t.stratum.toNat = 1 ∨ t.stratum.toNat = 2 by omega) with hone | htwo
  · exact Or.inl (UInt8.toNat_inj.mp hone)
  · exact Or.inr ⟨UInt8.toNat_inj.mp htwo, by omega⟩

/-- A call of `node_route_mfr` hands to its target if that is a neighbour, and asks for the way
there if not. -/
theorem routeMfrFrom_succ (fuel : Nat) (node : Node) :
    routeMfrFrom (fuel + 1) node destId destLoc maxstrat =
      (routeTarget node destId destLoc maxstrat).elim nodeIdInvalid fun t =>
        if t.stratum = 1 then t.id
        else routeMfrFrom fuel node t.id t.loc ((t.stratum.toNat : Int) - 1) := by
  rw [routeMfrFrom, routeTarget]
  cases routeLoop destId destLoc maxstrat (neighIter node.neighTable)
    (locDist2 node.virtloc destLoc) none <;> rfl

/-- With neighbours only, the next hop is the target. -/
theorem nodeRouteMfr_one {node : Node}
    (hzero : ∀ n ∈ neighIter node.neighTable, n.stratum ≠ 0) :
    nodeRouteMfr node destId destLoc 1 =
      (routeTarget node destId destLoc 1).elim nodeIdInvalid Neigh.id := by
  change routeMfrFrom 3 node destId destLoc 1 = _
  rw [routeMfrFrom_succ]
  cases htarget : routeTarget node destId destLoc 1 with
  | none => rfl
  | some t =>
    have hone : t.stratum = 1 :=
      ((aims_of_routeTarget htarget).stratum (by decide) hzero).resolve_right fun h => by
        omega
    exact if_pos hone

/-- With two hops, the next hop is the target, or the next hop towards it. -/
theorem nodeRouteMfr_two {node : Node}
    (hzero : ∀ n ∈ neighIter node.neighTable, n.stratum ≠ 0) :
    nodeRouteMfr node destId destLoc 2 =
      (routeTarget node destId destLoc 2).elim nodeIdInvalid fun t =>
        if t.stratum = 1 then t.id else nodeRouteMfr node t.id t.loc 1 := by
  change routeMfrFrom 4 node destId destLoc 2 = _
  rw [routeMfrFrom_succ]
  cases htarget : routeTarget node destId destLoc 2 with
  | none => rfl
  | some t =>
    rcases (aims_of_routeTarget htarget).stratum le_rfl hzero with hone | ⟨htwo, -⟩
    · exact (if_pos hone).trans (if_pos hone).symm
    · have hother : t.stratum ≠ 1 := by
        rw [htwo]
        decide
      have hlower : ((t.stratum.toNat : Int) - 1) = 1 := by
        rw [htwo]
        rfl
      dsimp only [Option.elim]
      rw [if_neg hother, if_neg hother, hlower]
      rfl

end Targets

/-! ## One hop at a time -/

/-- Nodes with unique identities that know where their neighbours are. -/
structure KnowsNeighbours (net : NodeId → Option Node) : Prop where
  /-- Identities are unique. -/
  id_eq : ∀ i node, net i = some node → node.id = i
  /-- There is no entry of stratum 0. -/
  stratum : ∀ i node, net i = some node → ∀ n ∈ neighIter node.neighTable, n.stratum ≠ 0
  /-- Neighbours are stored where they are. -/
  loc : ∀ i node, net i = some node → ∀ n ∈ neighIter node.neighTable, n.stratum = 1 →
    ∃ m, net n.id = some m ∧ n.loc = m.virtloc

/-- A route to a destination with neighbours only, with the node it starts from. -/
def greedyRoute (net : NodeId → Option Node) (dest : NodeId) (loc : Loc) (turns : Nat)
    (src : NodeId) : List NodeId :=
  src :: if src = dest then [] else routeHops net dest loc 1 turns src

/-- How far a node is from a place. -/
def farFrom (net : NodeId → Option Node) (loc : Loc) (id : NodeId) : Nat :=
  (net id).elim 0 fun node => (locDist2 node.virtloc loc).toNat

/-- Every hop is the destination or nearer to it. -/
theorem KnowsNeighbours.descends {net : NodeId → Option Node} (h : KnowsNeighbours net)
    (dest : NodeId) (loc : Loc) (visited : List NodeId) :
    Descends (routeNext net dest loc 1) (· = dest) (farFrom net loc) visited := by
  intro id _ _ next _ hnext
  obtain ⟨node, hnode, hhop, hvalid⟩ := routeNext_eq_some hnext
  rw [nodeRouteMfr_one (h.stratum id node hnode)] at hhop
  cases htarget : routeTarget node dest loc 1 with
  | none =>
    rw [htarget] at hhop
    exact hvalid.imp_right fun hne => absurd hhop.symm hne
  | some t =>
    rw [htarget] at hhop
    obtain rfl : t.id = next := hhop
    have haims := aims_of_routeTarget htarget
    have hone : t.stratum = 1 :=
      (haims.stratum (by decide) (h.stratum id node hnode)).resolve_right fun h => by omega
    obtain ⟨m, hm, hloc⟩ := h.loc id node hnode t haims.mem hone
    refine haims.chosen.imp_right fun hdist => ?_
    rw [farFrom, farFrom, hnode, hm, Option.elim_some, Option.elim_some, ← hloc]
    exact UInt64.lt_iff_toNat_lt.mp hdist.1

/-- Forwarding with neighbours only never visits a node twice. -/
theorem greedyRoute_nodup {net : NodeId → Option Node} (h : KnowsNeighbours net) (dest : NodeId)
    (loc : Loc) (turns : Nat) (src : NodeId) : (greedyRoute net dest loc turns src).Nodup := by
  rw [greedyRoute]
  split
  · exact List.nodup_singleton src
  · rename_i hsrc
    exact nodup_trail hsrc (h.descends dest loc _)

/-- A node at a place, with live entries for some neighbours. -/
def placedNode (id : NodeId) (virtloc : Loc) (neighs : List Neigh) : Node where
  id
  status := .awake
  neighTable :=
    { entries := (neighs.map fun neigh => { neigh, expiry := 1 }).take neighMax
      length_le := List.length_take_le .. }
  virtloc
  floodTimeout := 0
  wakeTime := 0

/-- The place `x` steps along a line. -/
def alongLine (x : Int32) : Loc := { x, y := 0, z := 0 }

/-- Three nodes on a line; each knows the nodes next to it and those two hops away. -/
def lineOfThree : List Node := [
  placedNode 0 (alongLine 0) [
    { id := 1, stratum := 1, loc := alongLine 1 }, { id := 2, stratum := 2, loc := alongLine 2 }],
  placedNode 1 (alongLine 1) [
    { id := 0, stratum := 1, loc := alongLine 0 }, { id := 2, stratum := 1, loc := alongLine 2 }],
  placedNode 2 (alongLine 2) [
    { id := 0, stratum := 2, loc := alongLine 0 }, { id := 1, stratum := 1, loc := alongLine 1 }]]

/-- A property of the nodes in a list is one of the nodes behind their positions. -/
theorem forall_nodeAt {nodes : List Node} {P : NodeId → Node → Prop}
    (h : ∀ i (hi : i < nodes.length), P (UInt16.ofNat i) nodes[i]) (id : NodeId) (node : Node)
    (hnode : nodeAt nodes id = some node) : P id node := by
  obtain ⟨hi, rfl⟩ := List.getElem?_eq_some_iff.mp hnode
  have hid := h id.toNat hi
  rwa [UInt16.ofNat_toNat] at hid

theorem greedyRoute_nodup_line :
    greedyRoute (nodeAt lineOfThree) 0 locZero 5 2 = [2, 1, 0] ∧
      (greedyRoute (nodeAt lineOfThree) 0 locZero 5 2).Nodup := by
  refine ⟨by decide +kernel, greedyRoute_nodup ⟨?_, ?_, ?_⟩ 0 locZero 5 2⟩
  · exact forall_nodeAt (by decide +kernel)
  · exact forall_nodeAt (by decide +kernel)
  · refine forall_nodeAt ?_
    decide +kernel

/-! ## Two hops at a time -/

/-- The entry of a node for another one: stratum 1 for a linked node, stratum 2 for one linked to a
linked node. -/
def neighOf (G : SimpleGraph NodeId) [DecidableRel G.Adj] (nodes : List Node) (id : NodeId)
    (m : Node) : Option Neigh :=
  if m.id = id then none
  else if G.Adj id m.id then some { id := m.id, stratum := 1, loc := m.virtloc }
  else if ∃ k ∈ nodes, G.Adj id k.id ∧ G.Adj k.id m.id then
    some { id := m.id, stratum := 2, loc := m.virtloc }
  else none

/-- Nodes on a topology of bidirectional links whose tables list exactly the nodes one and two hops
away. -/
structure KnowsTwoHops (G : SimpleGraph NodeId) [DecidableRel G.Adj] (nodes : List Node) :
    Prop where
  /-- Each node has its position as identity. -/
  id_eq : ∀ i (node : Node), nodes[i]? = some node → node.id.toNat = i
  /-- The invalid identity is not used. -/
  valid : ∀ node ∈ nodes, node.id ≠ nodeIdInvalid
  /-- Links join nodes. -/
  ends : ∀ a b, G.Adj a b → ∃ node ∈ nodes, node.id = a
  /-- The table of a node. -/
  table : ∀ node ∈ nodes, ∀ n, n ∈ neighIter node.neighTable ↔
    ∃ m ∈ nodes, neighOf G nodes node.id m = some n

section TwoHops

variable {G : SimpleGraph NodeId} [DecidableRel G.Adj] {nodes : List Node} {id : NodeId}

theorem neighOf_eq_some {m : Node} {n : Neigh} (h : neighOf G nodes id m = some n) :
    n.id = m.id ∧ n.loc = m.virtloc ∧ m.id ≠ id ∧
      (n.stratum = 1 ∧ G.Adj id m.id ∨ n.stratum = 2 ∧ ¬ G.Adj id m.id) := by
  unfold neighOf at h
  split at h
  · cases h
  · rename_i hne
    split at h
    · rename_i hadj
      cases h
      exact ⟨rfl, rfl, hne, Or.inl ⟨rfl, hadj⟩⟩
    · rename_i hadj
      split at h
      · cases h
        exact ⟨rfl, rfl, hne, Or.inr ⟨rfl, hadj⟩⟩
      · cases h

theorem neighOf_of_adj {m : Node} (h : G.Adj id m.id) :
    neighOf G nodes id m = some { id := m.id, stratum := 1, loc := m.virtloc } := by
  rw [neighOf, if_neg (G.ne_of_adj h).symm, if_pos h]

theorem mem_of_nodeAt {node : Node} (h : nodeAt nodes id = some node) : node ∈ nodes :=
  List.mem_of_getElem? h

namespace KnowsTwoHops

variable (h : KnowsTwoHops G nodes)
include h

/-- A node is found under its identity. -/
theorem nodeAt_id {node : Node} (hnode : node ∈ nodes) : nodeAt nodes node.id = some node := by
  obtain ⟨i, hi⟩ := List.getElem?_of_mem hnode
  rw [nodeAt, h.id_eq i node hi, hi]

/-- An entry of a table: the node it names, where it is, and whether it is linked. -/
theorem entry {node : Node} (hnode : node ∈ nodes) {n : Neigh}
    (hn : n ∈ neighIter node.neighTable) :
    ∃ m ∈ nodes, m.id = n.id ∧ n.loc = m.virtloc ∧ n.id ≠ node.id ∧
      (n.stratum = 1 ∧ G.Adj node.id n.id ∨ n.stratum = 2 ∧ ¬ G.Adj node.id n.id) := by
  obtain ⟨m, hm, hsome⟩ := (h.table node hnode n).mp hn
  obtain ⟨hid, hloc, hne, hstratum⟩ := neighOf_eq_some hsome
  exact ⟨m, hm, hid.symm, hloc, by rwa [hid], by rwa [hid]⟩

/-- A linked node is in the table. -/
theorem mem_of_adj {node m : Node} (hnode : node ∈ nodes) (hm : m ∈ nodes)
    (hadj : G.Adj node.id m.id) :
    { id := m.id, stratum := 1, loc := m.virtloc } ∈ neighIter node.neighTable :=
  (h.table node hnode _).mpr ⟨m, hm, neighOf_of_adj hadj⟩

theorem stratum_ne_zero {node : Node} (hnode : node ∈ nodes) :
    ∀ n ∈ neighIter node.neighTable, n.stratum ≠ 0 := by
  intro n hn hzero
  obtain ⟨-, -, -, -, -, hstratum⟩ := h.entry hnode hn
  rw [hzero] at hstratum
  rcases hstratum with ⟨hone, -⟩ | ⟨htwo, -⟩
  · exact absurd hone (by decide)
  · exact absurd htwo (by decide)

end KnowsTwoHops

/-- At a node from which the route goes on, towards a target two hops away: the neighbour it hands
to is linked to the target, and if the target is not the destination, every neighbour is farther
from there than the target. -/
def AimsThrough (G : SimpleGraph NodeId) (nodes : List Node) (dest : Node) (id : NodeId) : Prop :=
  ∀ hop ∈ routeNext (nodeAt nodes) dest.id dest.virtloc 2 id, ∀ node ∈ nodeAt nodes id,
    ∀ t ∈ routeTarget node dest.id dest.virtloc 2, t.stratum = 2 → G.Adj hop t.id ∧
      (t.id = dest.id ∨ ∀ n ∈ neighIter node.neighTable, n.stratum = 1 →
        locDist2 t.loc dest.virtloc < locDist2 n.loc dest.virtloc)

instance (dest : Node) : Decidable (AimsThrough G nodes dest id) :=
  (Option.decidableForallMem _ : Decidable (∀ hop ∈ routeNext _ _ _ _ _,
    ∀ node ∈ nodeAt nodes id, ∀ t ∈ routeTarget node dest.id dest.virtloc 2, _ → _ ∧ _))

/-- How far a target is: the destination first, the others by distance, then by stratum. -/
def rank (dest : Node) (t : Neigh) : Nat :=
  if t.id = dest.id then t.stratum.toNat
  else 3 * ((locDist2 t.loc dest.virtloc).toNat + 1) + t.stratum.toNat

/-- How far the target of a node is from which the route goes on. -/
def targetRank (nodes : List Node) (dest : Node) (id : NodeId) : Nat :=
  match routeNext (nodeAt nodes) dest.id dest.virtloc 2 id with
  | none => 0
  | some _ =>
    ((nodeAt nodes id).bind fun node => routeTarget node dest.id dest.virtloc 2).elim 0 (rank dest)

variable {dest : Node}

/-- The rank of a target bounds that of a node. -/
theorem targetRank_lt {c : Nat} (hc : 0 < c)
    (h : ∀ hop node t, routeNext (nodeAt nodes) dest.id dest.virtloc 2 id = some hop →
      nodeAt nodes id = some node → routeTarget node dest.id dest.virtloc 2 = some t →
      rank dest t < c) : targetRank nodes dest id < c := by
  unfold targetRank
  cases hnext : routeNext (nodeAt nodes) dest.id dest.virtloc 2 id with
  | none => exact hc
  | some hop =>
    cases htarget : (nodeAt nodes id).bind fun node => routeTarget node dest.id dest.virtloc 2 with
    | none => exact hc
    | some t =>
      obtain ⟨node, hnode, ht⟩ := Option.bind_eq_some_iff.mp htarget
      exact h hop node t hnext hnode ht

theorem targetRank_eq {hop : NodeId} {node : Node} {t : Neigh}
    (hnext : routeNext (nodeAt nodes) dest.id dest.virtloc 2 id = some hop)
    (hnode : nodeAt nodes id = some node)
    (ht : routeTarget node dest.id dest.virtloc 2 = some t) :
    targetRank nodes dest id = rank dest t := by
  rw [targetRank, hnext, hnode, Option.bind_some, ht]
  rfl

/-- Where the destination is linked, it is the target, and a neighbour. -/
theorem KnowsTwoHops.rank_of_adj (h : KnowsTwoHops G nodes) (hdest : dest ∈ nodes) {node : Node}
    {t : Neigh} (hnode : node ∈ nodes) (hadj : G.Adj node.id dest.id)
    (ht : routeTarget node dest.id dest.virtloc 2 = some t) : rank dest t = 1 := by
  have hreach : ((1 : Stratum).toNat : Int) ≤ 2 := by decide
  obtain ⟨t', ht', hid⟩ := exists_routeTarget (h.mem_of_adj hnode hdest hadj) hreach (Or.inl rfl)
  obtain rfl : t' = t := Option.some.inj (ht'.symm.trans ht)
  have hid := hid.resolve_right fun hne => hne.1 rfl
  obtain ⟨-, -, -, -, -, hstratum⟩ := h.entry hnode (aims_of_routeTarget ht).mem
  rw [hid] at hstratum
  rw [rank, if_pos hid, (hstratum.resolve_right fun hno => hno.2 hadj).1]
  rfl

/-- The strata of targets. -/
theorem KnowsTwoHops.stratum_of_target (h : KnowsTwoHops G nodes) {node : Node} {t : Neigh}
    (hnode : node ∈ nodes) (ht : routeTarget node dest.id dest.virtloc 2 = some t) :
    t.stratum.toNat = 1 ∨ t.stratum.toNat = 2 := by
  obtain ⟨-, -, -, -, -, hstratum⟩ := h.entry hnode (aims_of_routeTarget ht).mem
  exact hstratum.imp (fun hone => congrArg UInt8.toNat hone.1) fun htwo =>
    congrArg UInt8.toNat htwo.1

/-- The destination and what is nearer than a place rank below it. -/
theorem rank_lt_of_nearer {t : Neigh} {d : UInt64}
    (hstratum : t.stratum.toNat = 1 ∨ t.stratum.toNat = 2)
    (hnear : t.id = dest.id ∨ locDist2 t.loc dest.virtloc < d) :
    rank dest t < 3 * (d.toNat + 1) := by
  rw [rank]
  split
  · omega
  · rename_i hother
    have hless := UInt64.lt_iff_toNat_lt.mp (hnear.resolve_left hother)
    omega

/-- What the next hop aims at ranks below a target that is itself the next hop. -/
theorem KnowsTwoHops.targetRank_lt_of_near (h : KnowsTwoHops G nodes) {m : Node} (hm : m ∈ nodes)
    {t : Neigh} (hloc : t.loc = m.virtloc) (hone : t.stratum = 1)
    (hfar : t.id ≠ dest.id) : targetRank nodes dest m.id < rank dest t := by
  rw [rank, if_neg hfar, hone]
  refine targetRank_lt (Nat.succ_pos _) fun hop node t' _ hnode ht' => ?_
  obtain rfl : m = node := Option.some.inj ((h.nodeAt_id hm).symm.trans hnode)
  have hnear := (aims_of_routeTarget ht').chosen.imp_right fun hdist => hloc ▸ hdist.1
  exact (rank_lt_of_nearer (h.stratum_of_target hm ht') hnear).trans (Nat.lt_succ_self _)

/-- What the next hop aims at ranks below a target two hops away that is linked to it and nearer
than it. -/
theorem KnowsTwoHops.targetRank_lt_of_through (h : KnowsTwoHops G nodes) (hdest : dest ∈ nodes)
    {m relay : Node} (hm : m ∈ nodes) (hrelay : relay ∈ nodes) {t : Neigh} (hid : t.id = m.id)
    (hloc : t.loc = m.virtloc) (htwo : t.stratum = 2) (hadj : G.Adj relay.id m.id)
    (hnear : t.id = dest.id ∨
      locDist2 t.loc dest.virtloc < locDist2 relay.virtloc dest.virtloc)
    (haims : AimsThrough G nodes dest relay.id) : targetRank nodes dest relay.id < rank dest t := by
  have hrelayAt := h.nodeAt_id hrelay
  by_cases hgoal : t.id = dest.id
  · rw [rank, if_pos hgoal, htwo]
    refine targetRank_lt (by decide) fun hop node t' _ hnode ht' => ?_
    obtain rfl : relay = node := Option.some.inj (hrelayAt.symm.trans hnode)
    rw [h.rank_of_adj hdest hrelay (by rwa [← hgoal, hid]) ht']
    decide
  · rw [rank, if_neg hgoal, htwo, show UInt8.toNat 2 = 2 from rfl]
    refine targetRank_lt (Nat.succ_pos _) fun hop node t' hnext hnode ht' => ?_
    obtain rfl : relay = node := Option.some.inj (hrelayAt.symm.trans hnode)
    have hentry := h.mem_of_adj hrelay hm hadj
    have hstratum := h.stratum_of_target hrelay ht'
    have hreach : ((1 : Stratum).toNat : Int) ≤ 2 := by decide
    obtain ⟨t'', ht'', hbetter⟩ := exists_routeTarget hentry hreach
      (Or.inr (hloc ▸ hnear.resolve_left hgoal))
    obtain rfl : t'' = t' := Option.some.inj (ht''.symm.trans ht')
    rw [← hloc] at hbetter
    dsimp only at hbetter
    by_cases hless : t''.id = dest.id ∨
        locDist2 t''.loc dest.virtloc < locDist2 t.loc dest.virtloc
    · exact (rank_lt_of_nearer hstratum hless).trans (by omega)
    · -- As near as the target before: then it is a neighbour, as the target before is one now.
      obtain ⟨hfar, hge⟩ := not_or.mp hless
      have hle := UInt64.le_iff_toNat_le.mp (hbetter.resolve_left hfar).2
      have hnot := mt UInt64.lt_iff_toNat_lt.mpr hge
      rw [rank, if_neg hfar]
      rcases hstratum with hs | hs
      · omega
      · have hthrough := (haims hop hnext relay hnode t'' ht' (UInt8.toNat_inj.mp hs)).2
        have hlt := hthrough.resolve_left hfar _ hentry rfl
        rw [← hloc] at hlt
        exact absurd hlt hge

/-- Along a route whose nodes aim through neighbours linked to their targets the rank goes down. -/
theorem KnowsTwoHops.descends (h : KnowsTwoHops G nodes) (hdest : dest ∈ nodes)
    {visited : List NodeId} (haims : ∀ id ∈ visited, AimsThrough G nodes dest id) :
    Descends (routeNext (nodeAt nodes) dest.id dest.virtloc 2) (· = dest.id)
      (targetRank nodes dest) visited := by
  intro id hid _ next hnextMem hnext
  obtain ⟨node, hnode, hhop, hvalid⟩ := routeNext_eq_some hnext
  have hmem := mem_of_nodeAt hnode
  have hzero := h.stratum_ne_zero hmem
  rw [nodeRouteMfr_two hzero] at hhop
  refine or_iff_not_imp_left.mpr fun hother => ?_
  have hvalid := hvalid.resolve_left hother
  cases ht : routeTarget node dest.id dest.virtloc 2 with
  | none =>
    rw [ht] at hhop
    exact absurd hhop.symm hvalid
  | some t =>
    rw [ht, Option.elim_some] at hhop
    rw [targetRank_eq hnext hnode ht]
    obtain ⟨m, hm, hmid, hmloc, -, hstratum⟩ := h.entry hmem (aims_of_routeTarget ht).mem
    rcases hstratum with ⟨hone, -⟩ | ⟨htwo, -⟩
    · rw [if_pos hone] at hhop
      rw [← hhop, ← hmid]
      exact h.targetRank_lt_of_near hm hmloc hone (hhop ▸ hother)
    · have hne : t.stratum ≠ 1 := by
        rw [htwo]
        decide
      rw [if_neg hne, nodeRouteMfr_one hzero] at hhop
      obtain ⟨hadj, hfarther⟩ := haims id hid next hnext node hnode t ht htwo
      cases hr : routeTarget node t.id t.loc 1 with
      | none =>
        rw [hr] at hhop
        exact absurd hhop.symm hvalid
      | some r =>
        rw [hr] at hhop
        obtain rfl : r.id = next := hhop
        have hraims := aims_of_routeTarget hr
        have hone := (hraims.stratum (by decide) hzero).resolve_right fun h => by omega
        obtain ⟨relay, hrelay, hrid, hrloc, -, -⟩ := h.entry hmem hraims.mem
        rw [← hrid]
        refine h.targetRank_lt_of_through hdest hm hrelay hmid.symm hmloc htwo ?_ ?_ ?_
        · rwa [hrid, hmid]
        · exact hfarther.imp_right fun hall => hrloc ▸ hall r hraims.mem hone
        · exact hrid ▸ haims r.id hnextMem

/-- A node aims nowhere from its own place. -/
theorem KnowsTwoHops.routeNext_self (h : KnowsTwoHops G nodes) (hdest : dest ∈ nodes) :
    routeNext (nodeAt nodes) dest.id dest.virtloc 2 dest.id = none := by
  have hnone : routeTarget dest dest.id dest.virtloc 2 = none := by
    by_contra hsome
    obtain ⟨t, ht⟩ := Option.ne_none_iff_exists'.mp hsome
    have haims := aims_of_routeTarget ht
    obtain ⟨-, -, -, -, hother, -⟩ := h.entry hdest haims.mem
    rcases haims.chosen with hself | ⟨hless, -⟩
    · exact hother hself
    · rw [locDist2_self] at hless
      exact absurd hless UInt64.not_lt_zero
  have hhop : nodeRouteMfr dest dest.id dest.virtloc 2 = nodeIdInvalid := by
    rw [nodeRouteMfr_two (h.stratum_ne_zero hdest), hnone]
    rfl
  rw [routeNext, h.nodeAt_id hdest]
  dsimp only
  rw [hhop, if_neg (h.valid dest hdest).symm, if_pos rfl]

/-- Routing with two hops in view never visits a node twice, if every node of the route that aims
two hops away aims through a neighbour linked to its target. -/
theorem twoHopRoute_nodup (h : KnowsTwoHops G nodes) (src : NodeId) (hdest : dest ∈ nodes)
    (turns : Nat) (haims : ∀ id ∈ src :: routeHops (nodeAt nodes) dest.id dest.virtloc 2 turns src,
      AimsThrough G nodes dest id) :
    (src :: routeHops (nodeAt nodes) dest.id dest.virtloc 2 turns src).Nodup := by
  by_cases hsrc : src = dest.id
  · rw [routeHops, hsrc, trail_of_none turns (h.routeNext_self hdest)]
    exact List.nodup_singleton _
  · exact nodup_trail hsrc (h.descends hdest haims)

end TwoHops

/-- The topology of a list of links. -/
def linkGraph (links : List (NodeId × NodeId)) : SimpleGraph NodeId where
  Adj a b := a ≠ b ∧ ((a, b) ∈ links ∨ (b, a) ∈ links)
  symm := ⟨fun _ _ h => ⟨h.1.symm, h.2.symm⟩⟩
  loopless := ⟨fun _ h => h.1 rfl⟩

instance (links : List (NodeId × NodeId)) : DecidableRel (linkGraph links).Adj := fun _ _ =>
  inferInstanceAs (Decidable (_ ∧ _))

/-- A property of all members of a list, checked one by one: there are too many identities to check
them all. -/
private theorem forall_mem_of_all {α : Type} {xs : List α} {p : α → Prop} [DecidablePred p]
    (h : (xs.all fun a => decide (p a)) = true) : ∀ a ∈ xs, p a := fun a ha =>
  of_decide_eq_true (List.all_eq_true.mp h a ha)

/-- Nodes on a list of links know two hops if each table is listed in the order of the nodes. -/
theorem knowsTwoHops_linkGraph {links : List (NodeId × NodeId)} {nodes : List Node}
    (hids : ∀ i (hi : i < nodes.length), nodes[i].id.toNat = i ∧ nodes[i].id ≠ nodeIdInvalid)
    (hends : ∀ l ∈ links, l.1 ∈ nodes.map Node.id ∧ l.2 ∈ nodes.map Node.id)
    (htable : ∀ node ∈ nodes,
      neighIter node.neighTable = nodes.filterMap (neighOf (linkGraph links) nodes node.id)) :
    KnowsTwoHops (linkGraph links) nodes where
  id_eq i node hi := by
    obtain ⟨hlt, rfl⟩ := List.getElem?_eq_some_iff.mp hi
    exact (hids i hlt).1
  valid node hnode := by
    obtain ⟨i, hi, rfl⟩ := List.mem_iff_getElem.mp hnode
    exact (hids i hi).2
  ends a b hadj := by
    rcases hadj.2 with hlink | hlink
    · exact List.mem_map.mp (hends _ hlink).1
    · exact List.mem_map.mp (hends _ hlink).2
  table node hnode n := by rw [htable node hnode, List.mem_filterMap]

theorem twoHopRoute_nodup_line :
    routeHops (nodeAt lineOfThree) 0 (alongLine 0) 2 99 2 = [1, 0] ∧
      (2 :: routeHops (nodeAt lineOfThree) 0 (alongLine 0) 2 99 2).Nodup := by
  have hroute : routeHops (nodeAt lineOfThree) 0 (alongLine 0) 2 99 2 = [1, 0] := by
    decide +kernel
  have hknows : KnowsTwoHops (linkGraph [(0, 1), (1, 2)]) lineOfThree :=
    knowsTwoHops_linkGraph (by decide +kernel) (forall_mem_of_all (by decide +kernel))
      (by decide +kernel)
  have hdest : lineOfThree[0] ∈ lineOfThree := List.getElem_mem _
  refine ⟨hroute, twoHopRoute_nodup hknows 2 hdest 99 ?_⟩
  change ∀ id ∈ 2 :: routeHops (nodeAt lineOfThree) 0 (alongLine 0) 2 99 2, _
  rw [hroute]
  exact forall_mem_of_all (by decide +kernel)

/-! ## A route that turns back -/

/-- The places of five nodes: the detour at 1 is nearer to 3 than the way there. -/
def detourLoc : NodeId → Loc
  | 1 => { x := 0, y := 15, z := 0 }
  | 2 => { x := -10, y := 0, z := 0 }
  | 3 => { x := 10, y := 15, z := 0 }
  | 4 => { x := 20, y := 0, z := 0 }
  | _ => locZero

/-- One of the five nodes, with the identities and strata in its table. -/
def detourNode (id : NodeId) (neighs : List (NodeId × Stratum)) : Node :=
  placedNode id (detourLoc id)
    (neighs.map fun p => { id := p.1, stratum := p.2, loc := detourLoc p.1 })

/-- The links of the five nodes. -/
def detourLinks : List (NodeId × NodeId) := [(0, 1), (0, 2), (2, 3), (3, 4)]

/-- The five nodes. -/
def detourNodes : List Node := [
  detourNode 0 [(1, 1), (2, 1), (3, 2)],
  detourNode 1 [(0, 1), (2, 2)],
  detourNode 2 [(0, 1), (1, 2), (3, 1), (4, 2)],
  detourNode 3 [(0, 2), (2, 1), (4, 1)],
  detourNode 4 [(2, 2), (3, 1)]]

theorem detour_reachable (node : Node) (h : node ∈ detourNodes) :
    (linkGraph detourLinks).Reachable 0 node.id := by
  have h01 : (linkGraph detourLinks).Adj 0 1 := by decide
  have h02 : (linkGraph detourLinks).Adj 0 2 := by decide
  have h23 : (linkGraph detourLinks).Adj 2 3 := by decide
  have h34 : (linkGraph detourLinks).Adj 3 4 := by decide
  have hid : node.id ∈ detourNodes.map Node.id := List.mem_map_of_mem h
  have hids : detourNodes.map Node.id = [0, 1, 2, 3, 4] := rfl
  rw [hids] at hid
  simp only [List.mem_cons, List.not_mem_nil, or_false] at hid
  rcases hid with h | h | h | h | h <;> rw [h]
  · exact h01.reachable
  · exact h02.reachable
  · exact h02.reachable.trans h23.reachable
  · exact (h02.reachable.trans h23.reachable).trans h34.reachable

/-- Node 0 aims at 3 and hands to 1, which aims at 0. -/
theorem twoHopRoute_turnsBack :
    ¬ ∀ (G : SimpleGraph NodeId) [DecidableRel G.Adj] (nodes : List Node) (src dest : Node),
      KnowsTwoHops G nodes → (∀ a ∈ nodes, ∀ b ∈ nodes, G.Reachable a.id b.id) →
      src ∈ nodes → dest ∈ nodes →
      (src.id :: routeHops (nodeAt nodes) dest.id dest.virtloc 2 99 src.id).Nodup := by
  intro h
  have hknows : KnowsTwoHops (linkGraph detourLinks) detourNodes :=
    knowsTwoHops_linkGraph (by decide +kernel) (forall_mem_of_all (by decide +kernel))
      (by decide +kernel)
  have hconnected : ∀ a ∈ detourNodes, ∀ b ∈ detourNodes,
      (linkGraph detourLinks).Reachable a.id b.id := fun a ha b hb =>
    (detour_reachable a ha).symm.trans (detour_reachable b hb)
  have hnodup := h (linkGraph detourLinks) detourNodes detourNodes[0] detourNodes[4] hknows
    hconnected (List.getElem_mem _) (List.getElem_mem _)
  revert hnodup
  decide +kernel

end OldRadio.Second
