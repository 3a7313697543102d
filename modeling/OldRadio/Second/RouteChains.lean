import OldRadio.Second.Routes

/-!
# What a routing decision is

A call of `node_route_mfr` chooses an entry for its destination and hands to it
if it is a neighbour; otherwise it looks for the way to that entry among the
entries of lower stratum. The decision is the end of a chain of choices whose
strata go down to 1, and there is none when a choice on the way finds no entry.
-/

namespace OldRadio.Second

section Choice

variable {destId : NodeId} {destLoc : Loc} {maxstrat : Int} {neighs : List Neigh} {bound : UInt64}
  {n n' : Neigh}

/-- Two entries of a list are one, or one comes before the other. -/
theorem eq_or_before {α : Type*} {x y : α} {before after before' after' : List α}
    (h : before ++ x :: after = before' ++ y :: after') :
    x = y ∨ x ∈ before' ∧ y ∈ after ∨ y ∈ before ∧ x ∈ after' := by
  rcases List.append_eq_append_iff.mp h with ⟨gap, hbefore', hsplit⟩ | ⟨gap, hbefore, hsplit⟩
  · cases gap with
    | nil => exact Or.inl (List.cons.inj hsplit).1
    | cons z gap =>
      obtain ⟨rfl, rfl⟩ := List.cons.inj hsplit
      exact Or.inr (Or.inl ⟨by simp [hbefore'], by simp⟩)
  · cases gap with
    | nil => exact Or.inl (List.cons.inj hsplit).1.symm
    | cons z gap =>
      obtain ⟨rfl, rfl⟩ := List.cons.inj hsplit
      exact Or.inr (Or.inr ⟨by simp [hbefore], by simp⟩)

/-- At most one entry is the one to choose. -/
theorem Chosen.unique (h : Chosen destId destLoc maxstrat neighs bound n)
    (h' : Chosen destId destLoc maxstrat neighs bound n') : n = n' := by
  cases h with
  | listed split inReach id first =>
    cases h' with
    | listed split' inReach' id' first' =>
      rcases eq_or_before (split.symm.trans split') with heq | ⟨hn, -⟩ | ⟨hn', -⟩
      · exact heq
      · exact absurd id (first' n hn inReach)
      · exact absurd id' (first n' hn' inReach')
    | nearest split' inReach' unlisted' _ _ _ =>
      exact absurd id (unlisted' n (by simp [split]) inReach)
  | nearest split inReach unlisted nearer first least =>
    cases h' with
    | listed split' inReach' id' first' =>
      exact absurd id' (unlisted n' (by simp [split']) inReach')
    | nearest split' inReach' unlisted' nearer' first' least' =>
      rcases eq_or_before (split.symm.trans split') with heq | ⟨hn, hn'⟩ | ⟨hn', hn⟩
      · exact heq
      · exact absurd (first' n hn inReach) (UInt64.not_lt.mpr (least n' hn' inReach'))
      · exact absurd (first n' hn' inReach') (UInt64.not_lt.mpr (least' n hn inReach))

/-- The loop ends with the entry to choose. -/
theorem routeTarget_eq_some_iff {node : Node} :
    routeTarget node destId destLoc maxstrat = some n ↔
      Chosen destId destLoc maxstrat (neighIter node.neighTable)
        (locDist2 node.virtloc destLoc) n := by
  refine ⟨chosen_of_routeTarget, fun h => ?_⟩
  rcases routeLoop_chosen destId destLoc maxstrat (neighIter node.neighTable)
    (locDist2 node.virtloc destLoc) none with ⟨n', hrun, hchosen⟩ | ⟨-, hbest⟩
  · rw [routeTarget, hrun, hchosen.unique h]
  · obtain ⟨hother, hle⟩ := hbest n h.aims.mem h.aims.inReach
    rcases h.aims.chosen with hdest | ⟨hless, -⟩
    · exact absurd hdest hother
    · exact absurd hless (UInt64.not_lt.mpr hle)

theorem routeTarget_eq_none_iff {node : Node} :
    routeTarget node destId destLoc maxstrat = none ↔
      ∀ n, ¬ Chosen destId destLoc maxstrat (neighIter node.neighTable)
        (locDist2 node.virtloc destLoc) n := by
  simp only [Option.eq_none_iff_forall_ne_some, ne_eq, routeTarget_eq_some_iff]

end Choice

/-! ## The recursion -/

/-- What a call of `node_route_mfr` returns, by the calls it makes. -/
inductive RouteReturns (node : Node) : NodeId → Loc → Int → NodeId → Prop where
  /-- No entry is chosen. -/
  | invalid {destId : NodeId} {destLoc : Loc} {maxstrat : Int}
      (target : routeTarget node destId destLoc maxstrat = none) :
      RouteReturns node destId destLoc maxstrat nodeIdInvalid
  /-- A neighbour is chosen. -/
  | neighbour {destId : NodeId} {destLoc : Loc} {maxstrat : Int} {t : Neigh}
      (target : routeTarget node destId destLoc maxstrat = some t) (stratum : t.stratum = 1) :
      RouteReturns node destId destLoc maxstrat t.id
  /-- The entry chosen is the destination of another call. -/
  | further {destId : NodeId} {destLoc : Loc} {maxstrat : Int} {t : Neigh} {r : NodeId}
      (target : routeTarget node destId destLoc maxstrat = some t) (stratum : t.stratum ≠ 1)
      (returns : RouteReturns node t.id t.loc ((t.stratum.toNat : Int) - 1) r) :
      RouteReturns node destId destLoc maxstrat r

theorem le_of_routeTarget {node : Node} {destId : NodeId} {destLoc : Loc} {maxstrat : Int}
    {t : Neigh} (h : routeTarget node destId destLoc maxstrat = some t) :
    (t.stratum.toNat : Int) ≤ maxstrat :=
  (aims_of_routeTarget h).inReach

/-- Every call returns: the bound goes down, and below stratum 0 there is no entry. -/
theorem routeReturns_routeMfrFrom (node : Node) (fuel : Nat) (destId : NodeId) (destLoc : Loc)
    (maxstrat : Int) (hfuel : maxstrat + 2 ≤ fuel) :
    RouteReturns node destId destLoc maxstrat
      (routeMfrFrom fuel node destId destLoc maxstrat) := by
  induction fuel generalizing destId destLoc maxstrat with
  | zero =>
    refine .invalid ?_
    cases htarget : routeTarget node destId destLoc maxstrat with
    | none => rfl
    | some t =>
      have hle := le_of_routeTarget htarget
      omega
  | succ fuel ih =>
    rw [routeMfrFrom_succ]
    cases htarget : routeTarget node destId destLoc maxstrat with
    | none => exact .invalid htarget
    | some t =>
      have hle := le_of_routeTarget htarget
      rw [Option.elim_some]
      by_cases hone : t.stratum = 1
      · rw [if_pos hone]
        exact .neighbour htarget hone
      · rw [if_neg hone]
        exact .further htarget hone (ih t.id t.loc _ (by omega))

theorem routeReturns_nodeRouteMfr (node : Node) (destId : NodeId) (destLoc : Loc)
    (maxstrat : Int) :
    RouteReturns node destId destLoc maxstrat (nodeRouteMfr node destId destLoc maxstrat) :=
  routeReturns_routeMfrFrom node _ destId destLoc maxstrat (Int.self_le_toNat _)

/-- A call returns one identity. -/
theorem RouteReturns.unique {node : Node} {destId : NodeId} {destLoc : Loc} {maxstrat : Int}
    {r r' : NodeId} (h : RouteReturns node destId destLoc maxstrat r)
    (h' : RouteReturns node destId destLoc maxstrat r') : r = r' := by
  induction h with
  | invalid target =>
    cases h' with
    | invalid _ => rfl
    | neighbour target' _ => cases target.symm.trans target'
    | further target' _ _ => cases target.symm.trans target'
  | neighbour target stratum =>
    cases h' with
    | invalid target' => cases target.symm.trans target'
    | neighbour target' _ =>
      cases target.symm.trans target'
      rfl
    | further target' stratum' _ =>
      cases target.symm.trans target'
      exact absurd stratum stratum'
  | further target stratum returns ih =>
    cases h' with
    | invalid target' => cases target.symm.trans target'
    | neighbour target' stratum' =>
      cases target.symm.trans target'
      exact absurd stratum' stratum
    | further target' _ returns' =>
      cases target.symm.trans target'
      exact ih returns'

/-! ## Chains -/

/-- Each entry is chosen on the way to the one before it, the first on the way to the
destination. -/
def Levels (node : Node) : NodeId → Loc → Int → List Neigh → Prop
  | _, _, _, [] => True
  | destId, destLoc, maxstrat, e :: es =>
    Chosen destId destLoc maxstrat (neighIter node.neighTable) (locDist2 node.virtloc destLoc) e ∧
      Levels node e.id e.loc ((e.stratum.toNat : Int) - 1) es

/-- The next level finds no entry. -/
def LevelFails (node : Node) (destId : NodeId) (destLoc : Loc) (maxstrat : Int)
    (es : List Neigh) : Prop :=
  ∀ n, ¬ Levels node destId destLoc maxstrat (es ++ [n])

/-- A chain of live entries from the destination to a neighbour. -/
structure RouteChain (node : Node) (destId : NodeId) (destLoc : Loc) (maxstrat : Int)
    (es : List Neigh) (last : Neigh) : Prop where
  /-- Every entry is live. -/
  live : ∀ e ∈ es, e ∈ neighIter node.neighTable
  /-- The strata go down. -/
  descending : es.Pairwise fun e e' => e'.stratum < e.stratum
  /-- They start within the bound. -/
  bounded : ∀ e ∈ es, (e.stratum.toNat : Int) ≤ maxstrat
  /-- They end at a neighbour. -/
  ends : es.getLast? = some last
  stratum : last.stratum = 1
  /-- Every entry is the one to choose at its level. -/
  chosen : Levels node destId destLoc maxstrat es

section Chains

variable {node : Node} {destId : NodeId} {destLoc : Loc} {maxstrat : Int} {es : List Neigh}

theorem Levels.bounded (h : Levels node destId destLoc maxstrat es) :
    ∀ e ∈ es, e ∈ neighIter node.neighTable ∧ (e.stratum.toNat : Int) ≤ maxstrat := by
  induction es generalizing destId destLoc maxstrat with
  | nil => exact fun e he => absurd he List.not_mem_nil
  | cons e es ih =>
    have haims := h.1.aims
    refine List.forall_mem_cons.mpr ⟨⟨haims.mem, haims.inReach⟩, fun e' he' => ?_⟩
    obtain ⟨hmem, hle⟩ := ih h.2 e' he'
    exact ⟨hmem, hle.trans (by have := haims.inReach; omega)⟩

theorem Levels.descending (h : Levels node destId destLoc maxstrat es) :
    es.Pairwise fun e e' => e'.stratum < e.stratum := by
  induction es generalizing destId destLoc maxstrat with
  | nil => exact List.Pairwise.nil
  | cons e es ih =>
    refine List.pairwise_cons.mpr ⟨fun e' he' => ?_, ih h.2⟩
    have hle := (h.2.bounded e' he').2
    exact UInt8.lt_iff_toNat_lt.mpr (by omega)

/-- Levels that end at a neighbour are a chain. -/
theorem Levels.routeChain {last : Neigh} (h : Levels node destId destLoc maxstrat es)
    (ends : es.getLast? = some last) (stratum : last.stratum = 1) :
    RouteChain node destId destLoc maxstrat es last :=
  ⟨fun e he => (h.bounded e he).1, h.descending, fun e he => (h.bounded e he).2, ends, stratum, h⟩

/-- A call comes to a neighbour, or to a level that fails. -/
theorem RouteReturns.ends {r : NodeId} (h : RouteReturns node destId destLoc maxstrat r) :
    (∃ es last, RouteChain node destId destLoc maxstrat es last ∧ last.id = r) ∨
      r = nodeIdInvalid ∧ ∃ es, Levels node destId destLoc maxstrat es ∧
        (∀ e ∈ es, e.stratum ≠ 1) ∧ LevelFails node destId destLoc maxstrat es := by
  induction h with
  | invalid target =>
    refine Or.inr ⟨rfl, [], trivial, fun e he => absurd he List.not_mem_nil, fun n hn => ?_⟩
    exact routeTarget_eq_none_iff.mp target n hn.1
  | @neighbour destId destLoc maxstrat t target stratum =>
    have hlevels : Levels node destId destLoc maxstrat [t] :=
      ⟨chosen_of_routeTarget target, trivial⟩
    exact Or.inl ⟨[t], t, hlevels.routeChain rfl stratum, rfl⟩
  | @further destId destLoc maxstrat t r target stratum returns ih =>
    have hchosen := chosen_of_routeTarget target
    rcases ih with ⟨es, last, hchain, hlast⟩ | ⟨hr, es, hlevels, hother, hfails⟩
    · have hlevels : Levels node destId destLoc maxstrat (t :: es) := ⟨hchosen, hchain.chosen⟩
      refine Or.inl ⟨t :: es, last, hlevels.routeChain ?_ hchain.stratum, hlast⟩
      rw [List.getLast?_cons, hchain.ends, Option.getD_some]
    · exact Or.inr ⟨hr, t :: es, ⟨hchosen, hlevels⟩,
        List.forall_mem_cons.mpr ⟨stratum, hother⟩, fun n hn => hfails n hn.2⟩

/-- A chain leads a call to its end. -/
theorem Levels.routeReturns {last : Neigh} (h : Levels node destId destLoc maxstrat es)
    (ends : es.getLast? = some last) (stratum : last.stratum = 1) :
    RouteReturns node destId destLoc maxstrat last.id := by
  induction es generalizing destId destLoc maxstrat with
  | nil => cases ends
  | cons e es ih =>
    have htarget := routeTarget_eq_some_iff.mpr h.1
    cases es with
    | nil =>
      obtain rfl : e = last := Option.some.inj ends
      exact .neighbour htarget stratum
    | cons e' es =>
      rw [List.getLast?_cons_cons] at ends
      have hlast : (last.stratum.toNat : Int) ≤ (e.stratum.toNat : Int) - 1 :=
        (h.2.bounded last (List.mem_of_getLast? ends)).2
      refine .further htarget (fun hone => ?_) (ih h.2 ends)
      rw [hone, stratum] at hlast
      exact absurd hlast (by decide)

/-- A level without an entry to choose ends a call without a result. -/
theorem Levels.routeReturns_invalid (h : Levels node destId destLoc maxstrat es)
    (further : ∀ e ∈ es, e.stratum ≠ 1) (fails : LevelFails node destId destLoc maxstrat es) :
    RouteReturns node destId destLoc maxstrat nodeIdInvalid := by
  induction es generalizing destId destLoc maxstrat with
  | nil => exact .invalid (routeTarget_eq_none_iff.mpr fun n hn => fails n ⟨hn, trivial⟩)
  | cons e es ih =>
    obtain ⟨hother, hrest⟩ := List.forall_mem_cons.mp further
    exact .further (routeTarget_eq_some_iff.mpr h.1) hother
      (ih h.2 hrest fun n hn => fails n ⟨h.1, hn⟩)

end Chains

/-- `node_route_mfr` returns. It returns an identity exactly when a chain of choices ends with it,
and none when a level that it comes to finds no entry. -/
theorem nodeRouteMfr_chain (node : Node) (destId : NodeId) (destLoc : Loc) (maxstrat : Int) :
    RouteReturns node destId destLoc maxstrat (nodeRouteMfr node destId destLoc maxstrat) ∧
      (∀ r, r ≠ nodeIdInvalid → (nodeRouteMfr node destId destLoc maxstrat = r ↔
        ∃ es last, RouteChain node destId destLoc maxstrat es last ∧ last.id = r)) ∧
      (∀ es, Levels node destId destLoc maxstrat es → (∀ e ∈ es, e.stratum ≠ 1) →
        LevelFails node destId destLoc maxstrat es →
          nodeRouteMfr node destId destLoc maxstrat = nodeIdInvalid) := by
  have hreturns := routeReturns_nodeRouteMfr node destId destLoc maxstrat
  refine ⟨hreturns, fun r hvalid => ⟨?_, ?_⟩, fun es hlevels hfurther hfails => ?_⟩
  · rintro rfl
    exact hreturns.ends.resolve_right fun hend => hvalid hend.1
  · rintro ⟨es, last, hchain, rfl⟩
    exact hreturns.unique (hchain.chosen.routeReturns hchain.ends hchain.stratum)
  · exact hreturns.unique (hlevels.routeReturns_invalid hfurther hfails)

/-! ## Looking further -/

/-- No entry of lower stratum is nearer to a target than the node itself. -/
def DeadEnd (node : Node) (target : Neigh) : Prop :=
  ∀ m ∈ neighIter node.neighTable, m.stratum < target.stratum →
    locDist2 node.virtloc target.loc ≤ locDist2 m.loc target.loc

section Further

variable {node : Node} {destId : NodeId} {destLoc : Loc} {maxstrat : Int}

theorem levels_concat {es : List Neigh} {e n : Neigh}
    (h : Levels node destId destLoc maxstrat (es ++ [e])) :
    Levels node destId destLoc maxstrat (es ++ [e] ++ [n]) ↔
      Chosen e.id e.loc ((e.stratum.toNat : Int) - 1) (neighIter node.neighTable)
        (locDist2 node.virtloc e.loc) n := by
  induction es generalizing destId destLoc maxstrat with
  | nil => exact ⟨fun hlevels => hlevels.2.1, fun hchosen => ⟨h.1, hchosen, trivial⟩⟩
  | cons e' es ih => exact ⟨fun hlevels => (ih h.2).mp hlevels.2, fun hc => ⟨h.1, (ih h.2).mpr hc⟩⟩

/-- With unique identities, the level behind an entry fails when the entry is a dead end. -/
theorem levelFails_concat_iff {es : List Neigh} {e : Neigh}
    (hids : ((neighIter node.neighTable).map Neigh.id).Nodup)
    (h : Levels node destId destLoc maxstrat (es ++ [e])) :
    LevelFails node destId destLoc maxstrat (es ++ [e]) ↔ DeadEnd node e := by
  have hlive : e ∈ neighIter node.neighTable := (h.bounded e (by simp)).1
  rw [LevelFails, forall_congr' fun n => not_congr (levels_concat h), ← routeTarget_eq_none_iff]
  constructor
  · intro hnone m hm hlower
    by_contra hless
    have hreach : (m.stratum.toNat : Int) ≤ (e.stratum.toNat : Int) - 1 := by
      have := UInt8.lt_iff_toNat_lt.mp hlower
      omega
    obtain ⟨t, ht, -⟩ := exists_routeTarget hm hreach (Or.inr (UInt64.not_le.mp hless))
    cases hnone.symm.trans ht
  · intro hdead
    refine routeTarget_eq_none_iff.mpr fun n hchosen => ?_
    have haims := hchosen.aims
    have hreach := haims.inReach
    have hlower : n.stratum < e.stratum := UInt8.lt_iff_toNat_lt.mpr (by omega)
    rcases haims.chosen with hid | ⟨hless, -⟩
    · obtain rfl : n = e := List.inj_on_of_nodup_map hids haims.mem hlive hid
      exact UInt8.lt_irrefl _ hlower
    · exact UInt64.not_lt.mpr (hdead n haims.mem hlower) hless

/-- A node that knows a hop within some bound knows one within a larger bound, unless the choices
within the larger bound lead to a dead end. -/
theorem nodeRouteMfr_further {s s' : Int} (hle : s ≤ s')
    (hids : ((neighIter node.neighTable).map Neigh.id).Nodup)
    (hstrata : ∀ n ∈ neighIter node.neighTable, n.stratum ≠ 0)
    (hvalid : ∀ n ∈ neighIter node.neighTable, n.id ≠ nodeIdInvalid)
    (h : nodeRouteMfr node destId destLoc s ≠ nodeIdInvalid) :
    nodeRouteMfr node destId destLoc s' ≠ nodeIdInvalid ↔
      ¬ ∃ es e, Levels node destId destLoc s' (es ++ [e]) ∧ 2 ≤ e.stratum ∧ DeadEnd node e := by
  have hreturns := routeReturns_nodeRouteMfr node destId destLoc s'
  refine not_congr ⟨fun hinvalid => ?_, fun hdead => ?_⟩
  · rcases hreturns.ends with ⟨es, last, hchain, hlast⟩ | ⟨-, es, hlevels, hother, hfails⟩
    · have hlive := hchain.live last (List.mem_of_getLast? hchain.ends)
      exact absurd (hlast.trans hinvalid) (hvalid last hlive)
    · rcases List.eq_nil_or_concat es with rfl | ⟨es, e, rfl⟩
      · -- What is chosen within the smaller bound is in reach within the larger one.
        obtain ⟨es, last, hchain, -⟩ :=
          (routeReturns_nodeRouteMfr node destId destLoc s).ends.resolve_right fun hend => h hend.1
        cases es with
        | nil => cases hchain.ends
        | cons e es =>
          have haims := hchain.chosen.1.aims
          obtain ⟨t, ht, -⟩ := exists_routeTarget haims.mem (haims.inReach.trans hle)
            (haims.chosen.imp_right And.left)
          exact absurd ⟨chosen_of_routeTarget ht, trivial⟩ (hfails t)
      · rw [List.concat_eq_append] at hlevels hother hfails
        have hlive := (hlevels.bounded e (by simp)).1
        refine ⟨es, e, hlevels, ?_, (levelFails_concat_iff hids hlevels).mp hfails⟩
        have hzero : e.stratum.toNat ≠ 0 := fun h0 => hstrata e hlive (UInt8.toNat_inj.mp h0)
        have hone : e.stratum.toNat ≠ 1 := fun h1 => hother e (by simp) (UInt8.toNat_inj.mp h1)
        exact UInt8.le_iff_toNat_le.mpr (show 2 ≤ e.stratum.toNat by omega)
  · obtain ⟨es, e, hlevels, htwo, hdead⟩ := hdead
    have hfails := (levelFails_concat_iff hids hlevels).mpr hdead
    refine hreturns.unique (hlevels.routeReturns_invalid (fun m hm hone => ?_) hfails)
    have hle : e.stratum ≤ m.stratum := by
      rcases List.mem_append.mp hm with hbefore | hlast
      · exact UInt8.le_of_lt
          ((List.pairwise_append.mp hlevels.descending).2.2 m hbefore e List.mem_cons_self)
      · rw [List.mem_singleton.mp hlast]
        exact UInt8.le_refl _
    rw [hone] at hle
    exact absurd (UInt8.le_trans htwo hle) (by decide)

end Further

/-- A node with a neighbour aside of the way and, two hops away, a node nearer to the
destination. -/
def asideNode : Node :=
  placedNode 0 locZero [
    { id := 1, stratum := 1, loc := { x := 1, y := 3, z := 0 } },
    { id := 2, stratum := 2, loc := { x := 4, y := -6, z := 0 } }]

/-- Where the node two hops away does not count, the neighbour is a way on. -/
theorem nodeRouteMfr_further_aside :
    nodeRouteMfr asideNode 1 (alongLine 10) 2 ≠ nodeIdInvalid ↔
      ¬ ∃ es e, Levels asideNode 1 (alongLine 10) 2 (es ++ [e]) ∧ 2 ≤ e.stratum ∧
        DeadEnd asideNode e :=
  nodeRouteMfr_further (show (1 : Int) ≤ 2 by decide) (by decide +kernel) (by decide +kernel)
    (by decide +kernel) (by decide +kernel)

/-- Looking two hops ahead, the node finds no way to the destination that it has a hop for. -/
theorem nodeRouteMfr_aside :
    ((neighIter asideNode.neighTable).map Neigh.id).Nodup ∧
      (∀ n ∈ neighIter asideNode.neighTable, 1 ≤ n.stratum) ∧
      nodeRouteMfr asideNode 9 (alongLine 10) 1 = 1 ∧
      nodeRouteMfr asideNode 9 (alongLine 10) 2 = nodeIdInvalid := by
  decide +kernel

end OldRadio.Second
