import OldRadio.Library.Growing
import OldRadio.Tools.Topologies

/-!
# Topologies of spread nodes

`spread_topo.py`. It tries one position after another: one too close to a node
that is placed already is dropped, with the links collected until then, and so
is one out of reach of all nodes. Any other is a new node, with a link to each
node in reach.
-/

namespace OldRadio.Tools

open Library

/-- What the program is called with, but for the seed. -/
structure SpreadArgv (K : Type*) where
  /-- `argv[1]`. -/
  argv1 : Int
  /-- `argv[2]`, if there is one. -/
  argv2 : Option K
  /-- `argv[3]`, if there is one. -/
  argv3 : Option K

/-- Where the placement is. -/
structure SpreadState (K : Type*) where
  /-- `nodes`. -/
  nodes : List (Position K)
  /-- `links`. -/
  links : List (PrintedLink K)
  /-- `minx`. -/
  minx : K
  /-- `maxx`. -/
  maxx : K
  /-- `miny`. -/
  miny : K
  /-- `maxy`. -/
  maxy : K

section Program

variable {K : Type*} [Field K] [LinearOrder K]

/-- `nnodes`. -/
def SpreadArgv.nnodes (argv : SpreadArgv K) : Int := argOr 400 (some argv.argv1)

/-- `minrange`. -/
def SpreadArgv.minrange (argv : SpreadArgv K) : K := argOr 0 argv.argv2

/-- `maxrange`. -/
def SpreadArgv.maxrange (argv : SpreadArgv K) : K := argOr 10 argv.argv3

/-- The state in front of the loop. -/
def spreadStart : SpreadState K where
  nodes := [(1000, 1000)]
  links := []
  minx := 1000
  maxx := 1000
  miny := 1000
  maxy := 1000

variable (math : PyMath K) (argv : SpreadArgv K)

/-- The loop over the nodes, from node `m` on, for a new node `n` at `node1`: `tooclose` and
`nlinks`. -/
def spreadScan (n : Nat) (node1 : Position K) :
    Nat → List (Position K) → List (PrintedLink K) → Bool × List (PrintedLink K)
  | _, [], nlinks => (false, nlinks)
  | m, node2 :: rest, nlinks =>
    let dist2 := planeDist2 node1 node2
    if dist2 < argv.minrange * argv.minrange then (true, nlinks)
    else if dist2 < argv.maxrange * argv.maxrange then
      spreadScan n node1 (m + 1) rest (nlinks ++ [{ n, m, d := math.sqrt dist2 }])
    else spreadScan n node1 (m + 1) rest nlinks

/-- The position that is tried, from two outcomes of `random`. -/
def spreadPosition (s : SpreadState K) (r₁ r₂ : K) : Position K :=
  (r₁ * ((2 : Nat) * argv.maxrange + s.maxx - s.minx) + s.minx - argv.maxrange,
    r₂ * ((2 : Nat) * argv.maxrange + s.maxy - s.miny) + s.miny - argv.maxrange)

/-- The end of a turn of the main loop, with the position it tries. -/
def spreadTry (s : SpreadState K) (node1 : Position K) : SpreadState K :=
  let (tooclose, nlinks) := spreadScan math argv s.nodes.length node1 0 s.nodes []
  if !tooclose && !nlinks.isEmpty then
    { nodes := s.nodes ++ [node1]
      links := s.links ++ nlinks
      minx := min node1.1 s.minx
      maxx := max node1.1 s.maxx
      miny := min node1.2 s.miny
      maxy := max node1.2 s.maxy }
  else s

/-- The main loop, if it ends within some turns; `tape` is what the calls of `random` return, of
which `i` are used. -/
def spreadLoop (tape : Nat → K) : Nat → Nat → SpreadState K → Option (SpreadState K)
  | 0, _, _ => none
  | turns + 1, i, s =>
    if (s.nodes.length : Int) < argv.nnodes then
      spreadLoop tape turns (i + 2)
        (spreadTry math argv s (spreadPosition argv s (tape i) (tape (i + 1))))
    else some s

/-- The whole program: the state that is printed. -/
def spreadTopo (tape : Nat → K) (turns : Nat) : Option (SpreadState K) :=
  spreadLoop math argv tape turns 0 spreadStart

end Program

/-! ## One position -/

section Turn

variable {K : Type*} [Field K] [LinearOrder K] {math : PyMath K} {argv : SpreadArgv K}

/-- The links of a new node `n` to the nodes in reach among those from node `m` on. -/
def linksInReach (math : PyMath K) (argv : SpreadArgv K) (n : Nat) (node1 : Position K) (m : Nat)
    (nodes : List (Position K)) : List (PrintedLink K) :=
  ((nodes.zipIdx m).filter fun node2 =>
      planeDist2 node1 node2.1 < argv.maxrange * argv.maxrange).map fun node2 =>
    { n, m := node2.2, d := math.sqrt (planeDist2 node1 node2.1) }

/-- The scan stops at a node that is too close, and else collects the links to the nodes in
reach. -/
theorem spreadScan_cases (n : Nat) (node1 : Position K) (m : Nat) (nodes : List (Position K))
    (nlinks : List (PrintedLink K)) :
    (spreadScan math argv n node1 m nodes nlinks).1 = true ∨
      (∀ node2 ∈ nodes, argv.minrange * argv.minrange ≤ planeDist2 node1 node2) ∧
        spreadScan math argv n node1 m nodes nlinks =
          (false, nlinks ++ linksInReach math argv n node1 m nodes) := by
  induction nodes generalizing m nlinks with
  | nil => exact Or.inr ⟨fun _ h => absurd h List.not_mem_nil, by simp [spreadScan, linksInReach]⟩
  | cons node2 rest ih =>
    rw [spreadScan]
    by_cases hclose : planeDist2 node1 node2 < argv.minrange * argv.minrange
    · rw [if_pos hclose]
      exact Or.inl rfl
    rw [if_neg hclose]
    have hfar := not_lt.mp hclose
    by_cases hreach : planeDist2 node1 node2 < argv.maxrange * argv.maxrange
    · rw [if_pos hreach]
      refine (ih (m + 1) _).imp_right fun ⟨hrest, heq⟩ =>
        ⟨List.forall_mem_cons.mpr ⟨hfar, hrest⟩, ?_⟩
      rw [heq, linksInReach, linksInReach, List.zipIdx_cons, List.filter_cons_of_pos
          (by simpa using hreach),
        List.map_cons, List.append_assoc]
      rfl
    · rw [if_neg hreach]
      refine (ih (m + 1) _).imp_right fun ⟨hrest, heq⟩ =>
        ⟨List.forall_mem_cons.mpr ⟨hfar, hrest⟩, ?_⟩
      rw [heq, linksInReach, linksInReach, List.zipIdx_cons, List.filter_cons_of_neg
          (by simpa using hreach)]

/-- A turn leaves the topology as it is, or adds a node that is not too close to any other, and its
links, of which there is one. -/
theorem spreadTry_cases (s : SpreadState K) (node1 : Position K) :
    spreadTry math argv s node1 = s ∨
      (∀ node2 ∈ s.nodes, argv.minrange * argv.minrange ≤ planeDist2 node1 node2) ∧
        linksInReach math argv s.nodes.length node1 0 s.nodes ≠ [] ∧
        (spreadTry math argv s node1).nodes = s.nodes ++ [node1] ∧
        (spreadTry math argv s node1).links =
          s.links ++ linksInReach math argv s.nodes.length node1 0 s.nodes := by
  rw [spreadTry]
  rcases spreadScan_cases s.nodes.length node1 0 s.nodes [] with hclose | ⟨hfar, heq⟩
  · left
    dsimp only
    rw [hclose]
    rfl
  · rw [heq, List.nil_append]
    by_cases hnone : linksInReach math argv s.nodes.length node1 0 s.nodes = []
    · left
      rw [hnone]
      rfl
    · right
      dsimp only
      rw [if_pos (by simpa using hnone)]
      exact ⟨hfar, hnone, rfl, rfl⟩

/-- The links of a new node, as they are read. -/
theorem mem_linksInReach {n : Nat} {node1 : Position K} {nodes : List (Position K)} {a b : Nat} :
    (a, b) ∈ linkPairs (linksInReach math argv n node1 0 nodes) ↔
      a = n ∧ ∃ node2, nodes[b]? = some node2 ∧
        planeDist2 node1 node2 < argv.maxrange * argv.maxrange := by
  rw [linkPairs, linksInReach, List.map_map, List.mem_map]
  constructor
  · rintro ⟨⟨node2, m⟩, hmem, heq⟩
    cases heq
    obtain ⟨hget, hreach⟩ := List.mem_filter.mp hmem
    exact ⟨rfl, node2, List.mk_mem_zipIdx_iff_getElem?.mp hget, of_decide_eq_true hreach⟩
  · rintro ⟨rfl, node2, hget, hreach⟩
    exact ⟨(node2, b), List.mem_filter.mpr
      ⟨List.mk_mem_zipIdx_iff_getElem?.mpr hget, decide_eq_true hreach⟩, rfl⟩

/-- There is one to each node in reach. -/
theorem nodup_linksInReach (n : Nat) (node1 : Position K) (nodes : List (Position K)) :
    (linkPairs (linksInReach math argv n node1 0 nodes)).Nodup := by
  have hnumbers : ((nodes.zipIdx 0).map Prod.snd).Nodup := by
    rw [List.zipIdx_map_snd]
    exact List.nodup_range' ..
  have hindices : (((nodes.zipIdx 0).filter fun node2 =>
      planeDist2 node1 node2.1 < argv.maxrange * argv.maxrange).map Prod.snd).Nodup :=
    hnumbers.sublist (List.filter_sublist.map _)
  rw [linkPairs, linksInReach, List.map_map]
  refine List.Nodup.of_map Prod.snd ?_
  rw [List.map_map]
  exact hindices

/-! ## The whole placement -/

/-- What holds of a topology as it grows. -/
structure SpreadOut (argv : SpreadArgv K) (s : SpreadState K) : Prop where
  /-- There is a first node. -/
  nodes_pos : 0 < s.nodes.length
  /-- No node is too close to an earlier one. -/
  spaced : s.nodes.Pairwise fun node2 node1 =>
    argv.minrange * argv.minrange ≤ planeDist2 node1 node2
  /-- No link is there twice. -/
  nodup : (linkPairs s.links).Nodup
  /-- Links of earlier nodes stand in front. -/
  sorted : (linkPairs s.links).Pairwise fun p q => p.1 ≤ q.1
  /-- There is a link from each node to the earlier ones in reach. -/
  mem_links : ∀ n m, (n, m) ∈ linkPairs s.links ↔
    m < n ∧ ∃ node1 node2, s.nodes[n]? = some node1 ∧ s.nodes[m]? = some node2 ∧
      planeDist2 node1 node2 < argv.maxrange * argv.maxrange
  /-- Each node but the first has one. -/
  joined : ∀ n, 0 < n → n < s.nodes.length → ∃ m < n, (n, m) ∈ linkPairs s.links

theorem spreadOut_start (argv : SpreadArgv K) : SpreadOut argv spreadStart where
  nodes_pos := Nat.one_pos
  spaced := List.pairwise_singleton ..
  nodup := List.nodup_nil
  sorted := List.Pairwise.nil
  mem_links n m := by
    refine iff_of_false List.not_mem_nil ?_
    rintro ⟨hlt, node1, -, hget, -⟩
    have hn : n < 1 := (List.getElem?_eq_some_iff.mp hget).1
    omega
  joined n hpos hn := absurd hn (Nat.not_lt.mpr hpos)

/-- The links of a new node make the links of the topology with it. -/
theorem SpreadOut.mem_append {s : SpreadState K} (h : SpreadOut argv s) (node1 : Position K)
    (n m : Nat) :
    (n, m) ∈ linkPairs (s.links ++ linksInReach math argv s.nodes.length node1 0 s.nodes) ↔
      m < n ∧ ∃ p q, (s.nodes ++ [node1])[n]? = some p ∧ (s.nodes ++ [node1])[m]? = some q ∧
        planeDist2 p q < argv.maxrange * argv.maxrange := by
  rw [linkPairs, List.map_append, List.mem_append]
  change (n, m) ∈ linkPairs s.links ∨ (n, m) ∈ linkPairs (linksInReach ..) ↔ _
  rw [h.mem_links, mem_linksInReach]
  constructor
  · rintro (⟨hlt, p, q, hp, hq, hreach⟩ | ⟨rfl, q, hq, hreach⟩)
    · have hn := (List.getElem?_eq_some_iff.mp hp).1
      refine ⟨hlt, p, q, ?_, ?_, hreach⟩
      · rwa [List.getElem?_append_left hn]
      · rwa [List.getElem?_append_left (hlt.trans hn)]
    · have hm := (List.getElem?_eq_some_iff.mp hq).1
      exact ⟨hm, node1, q, List.getElem?_concat_length .., by rwa [List.getElem?_append_left hm],
        hreach⟩
  · rintro ⟨hlt, p, q, hp, hq, hreach⟩
    have hn := (List.getElem?_eq_some_iff.mp hp).1
    rw [List.length_append, List.length_singleton] at hn
    have hm : m < s.nodes.length := by omega
    rw [List.getElem?_append_left hm] at hq
    rcases Nat.lt_succ_iff_lt_or_eq.mp hn with hold | rfl
    · rw [List.getElem?_append_left hold] at hp
      exact Or.inl ⟨hlt, p, q, hp, hq, hreach⟩
    · rw [List.getElem?_concat_length] at hp
      cases hp
      exact Or.inr ⟨rfl, q, hq, hreach⟩

/-- Whatever position is tried, the topology stays spread out. -/
theorem SpreadOut.try {s : SpreadState K} (h : SpreadOut argv s) (node1 : Position K) :
    SpreadOut argv (spreadTry math argv s node1) := by
  rcases @spreadTry_cases K _ _ math argv s node1 with heq | ⟨hfar, hnone, hnodes, hlinks⟩
  · rwa [heq]
  constructor
  case nodes_pos =>
    rw [hnodes, List.length_append]
    exact Nat.add_pos_left h.nodes_pos 1
  case spaced =>
    rw [hnodes, List.pairwise_append]
    refine ⟨h.spaced, List.pairwise_singleton .., fun node2 hnode2 p hp => ?_⟩
    rw [List.mem_singleton.mp hp]
    exact hfar node2 hnode2
  case nodup =>
    rw [hlinks, linkPairs, List.map_append, List.nodup_append']
    refine ⟨h.nodup, nodup_linksInReach .., fun l hold hnew => ?_⟩
    -- an old link is from an old node
    obtain ⟨n, m⟩ := l
    obtain ⟨-, p, -, hp, -⟩ := (h.mem_links n m).mp hold
    have hn := (List.getElem?_eq_some_iff.mp hp).1
    have hlast := (mem_linksInReach.mp hnew).1
    omega
  case sorted =>
    rw [hlinks, linkPairs, List.map_append, List.pairwise_append]
    refine ⟨h.sorted, List.pairwise_of_forall_mem_list fun p hp q hq => ?_, fun p hp q hq => ?_⟩
    · rw [(mem_linksInReach.mp hp).1, (mem_linksInReach.mp hq).1]
    · obtain ⟨-, node2, -, hold, -⟩ := (h.mem_links p.1 p.2).mp hp
      rw [(mem_linksInReach.mp hq).1]
      exact (List.getElem?_eq_some_iff.mp hold).1.le
  case mem_links =>
    intro n m
    rw [hlinks, hnodes]
    exact h.mem_append node1 n m
  case joined =>
    intro n hpos hn
    rw [hnodes, List.length_append, List.length_singleton] at hn
    rw [hlinks, linkPairs, List.map_append]
    rcases Nat.lt_succ_iff_lt_or_eq.mp hn with hold | rfl
    · obtain ⟨m, hm, hlink⟩ := h.joined n hpos hold
      exact ⟨m, hm, List.mem_append_left _ hlink⟩
    · obtain ⟨l, hl⟩ := List.exists_mem_of_ne_nil _ hnone
      have hpair : (l.n, l.m) ∈ linkPairs (linksInReach math argv s.nodes.length node1 0 s.nodes) :=
        List.mem_map_of_mem hl
      obtain ⟨hnew, q, hq, -⟩ := mem_linksInReach.mp hpair
      rw [hnew] at hpair
      exact ⟨l.m, (List.getElem?_eq_some_iff.mp hq).1, List.mem_append_right _ hpair⟩

/-- However the placement ends, the topology is spread out. -/
theorem spreadOut_of_spreadLoop {tape : Nat → K} {turns i : Nat} {s t : SpreadState K}
    (hs : SpreadOut argv s) (h : spreadLoop math argv tape turns i s = some t) :
    SpreadOut argv t := by
  induction turns generalizing i s with
  | zero => cases h
  | succ turns ih =>
    rw [spreadLoop] at h
    split at h
    · exact ih (hs.try _) h
    · cases h
      exact hs

/-- A turn places one node at most. -/
theorem length_spreadTry (s : SpreadState K) (node1 : Position K) :
    (spreadTry math argv s node1).nodes.length = s.nodes.length ∨
      (spreadTry math argv s node1).nodes.length = s.nodes.length + 1 := by
  rcases @spreadTry_cases K _ _ math argv s node1 with heq | ⟨-, -, hnodes, -⟩
  · left
    rw [heq]
  · right
    rw [hnodes, List.length_append, List.length_singleton]

/-- The loop ends with the nodes that were asked for, unless there were more before. -/
theorem length_nodes_spreadLoop {tape : Nat → K} {turns i : Nat} {s t : SpreadState K}
    (h : spreadLoop math argv tape turns i s = some t) :
    (t.nodes.length : Int) = max (s.nodes.length : Int) argv.nnodes := by
  induction turns generalizing i s with
  | zero => cases h
  | succ turns ih =>
    rw [spreadLoop] at h
    split at h
    · rename_i hmore
      rw [ih h]
      rcases length_spreadTry s (spreadPosition argv s (tape i) (tape (i + 1))) with heq | heq
      · rw [heq]
      · rw [heq]
        omega
    · cases h
      omega

/-- The placement ends with the nodes that were asked for, and one at least. -/
theorem length_nodes_spreadTopo {tape : Nat → K} {turns : Nat} {s : SpreadState K}
    (h : spreadTopo math argv tape turns = some s) :
    (s.nodes.length : Int) = max 1 argv.nnodes :=
  length_nodes_spreadLoop h

end Turn

/-! ## Over the real numbers -/

section Distances

variable {argv : SpreadArgv ℝ} {node1 node2 : Position ℝ}

/-- The comparison with `minrange2`. -/
theorem minrange_le_planeDist_iff (hmin : 0 ≤ argv.minrange) :
    argv.minrange ≤ planeDist node1 node2 ↔
      argv.minrange * argv.minrange ≤ planeDist2 node1 node2 := by
  rw [planeDist, Real.le_sqrt hmin (planeDist2_nonneg ..), sq]

/-- The comparison with `maxrange2`. -/
theorem planeDist_lt_maxrange_iff (hmax : 0 < argv.maxrange) :
    planeDist node1 node2 < argv.maxrange ↔
      planeDist2 node1 node2 < argv.maxrange * argv.maxrange := by
  rw [planeDist, Real.sqrt_lt' hmax, sq]

/-- However the placement ends, any two nodes are at least `minrange` apart, the links are exactly
the pairs below `maxrange`, each once and with the larger number in front, and they connect all
nodes. -/
theorem spreadTopo_spec {tape : Nat → ℝ} {turns : Nat} {s : SpreadState ℝ}
    (hmin : 0 ≤ argv.minrange) (hmax : 0 < argv.maxrange)
    (h : spreadTopo realMath argv tape turns = some s) :
    (∀ (i j : Nat) p q, i ≠ j → s.nodes[i]? = some p → s.nodes[j]? = some q →
        argv.minrange ≤ planeDist p q) ∧
      (linkPairs s.links).Nodup ∧
      (∀ n m : Nat, (n, m) ∈ linkPairs s.links ↔
        m < n ∧ ∃ p q, s.nodes[n]? = some p ∧ s.nodes[m]? = some q ∧
          planeDist p q < argv.maxrange) ∧
      (linkGraph s.nodes.length (linkPairs s.links)).Connected := by
  have hout := spreadOut_of_spreadLoop (spreadOut_start argv) h
  refine ⟨fun i j p q hne hp hq => ?_, hout.nodup, fun n m => ?_,
    connected_linkGraph hout.nodes_pos hout.joined⟩
  · rw [minrange_le_planeDist_iff hmin]
    obtain ⟨hi, rfl⟩ := List.getElem?_eq_some_iff.mp hp
    obtain ⟨hj, rfl⟩ := List.getElem?_eq_some_iff.mp hq
    rcases Nat.lt_or_gt_of_ne hne with hlt | hlt
    · rw [planeDist2_comm]
      exact List.pairwise_iff_getElem.mp hout.spaced i j hi hj hlt
    · exact List.pairwise_iff_getElem.mp hout.spaced j i hj hi hlt
  · rw [hout.mem_links]
    simp only [planeDist_lt_maxrange_iff hmax]

/-- Two nodes, of which the second is in the corner of what is tried. -/
theorem spreadTopo_spec_two :
    ∃ s, spreadTopo realMath ⟨2, some 1, some 10⟩ (fun _ => 3 / 4) 2 = some s ∧
      s.nodes = [(1000, 1000), (1005, 1005)] ∧
      (linkGraph s.nodes.length (linkPairs s.links)).Connected := by
  have hmin : (⟨2, some 1, some 10⟩ : SpreadArgv ℝ).minrange = 1 := if_neg one_ne_zero
  have hmax : (⟨2, some 1, some 10⟩ : SpreadArgv ℝ).maxrange = 10 := if_neg (by norm_num)
  have hplace : spreadPosition ⟨2, some 1, some 10⟩ spreadStart (3 / 4) (3 / 4) =
      ((1005, 1005) : Position ℝ) := by
    rw [spreadPosition, hmax]
    norm_num [spreadStart]
  have hscan : spreadScan realMath ⟨2, some 1, some 10⟩ 1 ((1005, 1005) : Position ℝ) 0
      [(1000, 1000)] [] = (false, [{ n := 1, m := 0, d := √50 }]) := by
    norm_num [spreadScan, hmin, hmax, planeDist2, realMath]
  have hrun : spreadTopo realMath ⟨2, some 1, some 10⟩ (fun _ => 3 / 4) 2 =
      some {
        nodes := [(1000, 1000), (1005, 1005)]
        links := [{ n := 1, m := 0, d := √50 }]
        minx := min 1005 1000
        maxx := max 1005 1000
        miny := min 1005 1000
        maxy := max 1005 1000 } := by
    rw [spreadTopo, spreadLoop, if_pos (by decide), hplace, spreadTry]
    simp only [spreadStart, List.length_singleton, hscan]
    rfl
  exact ⟨_, hrun, rfl, (spreadTopo_spec (by rw [hmin]; norm_num) (by rw [hmax]; norm_num)
    hrun).2.2.2⟩

end Distances

end OldRadio.Tools
