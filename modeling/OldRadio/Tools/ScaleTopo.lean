import Mathlib.Data.Prod.Lex
import OldRadio.Library.Shortlist
import OldRadio.Tools.Topologies

/-!
# Topologies of the shortest links

`scale_topo.py`. It draws the positions of all nodes, in the unit square or on a
sphere, and keeps the shortest links between them in a heap, the longest of them
in front. Then it scales the picture so that this one gets the radio range,
lists the neighbours of each node, and prints each link at its smaller end.
-/

namespace OldRadio.Tools

open Library

/-- What ends the program. -/
inductive PyError
  /-- `IndexError`. -/
  | indexError
  /-- `ZeroDivisionError`. -/
  | zeroDivisionError
  deriving DecidableEq, Repr

/-- What the program is called with, but for the seed. -/
structure ScaleArgv (K : Type*) where
  /-- `argv[1]`. -/
  argv1 : Int
  /-- `argv[2]`, if there is one. -/
  argv2 : Option Int
  /-- `argv[3]`, if there is one. -/
  argv3 : Option K
  /-- `argv[4]`, if there is one. -/
  argv4 : Option String

/-- A tuple `(-dist2, n, m)`. Tuples are compared from the front. -/
abbrev HeapLink (K : Type*) := K ×ₗ ℕ ×ₗ ℕ

/-- What the loops make of the links: the heap, and the number of links in it. -/
structure LinkHeap (K : Type*) where
  /-- `links`. -/
  links : List (HeapLink K)
  /-- `qlinks`. -/
  qlinks : Nat

section Program

variable {K : Type*} [Field K] [LinearOrder K]

/-- `nnodes`. -/
def ScaleArgv.nnodes (argv : ScaleArgv K) : Int := argOr 400 (some argv.argv1)

/-- `nlinks`. -/
def ScaleArgv.nlinks (argv : ScaleArgv K) : Int := argOr (argv.nnodes * 5) argv.argv2

/-- `rrange`, if it is not `None`. -/
def ScaleArgv.rrange (argv : ScaleArgv K) : Option K := argv.argv3.filter (· ≠ 0)

/-- `spherical`. -/
def ScaleArgv.spherical (argv : ScaleArgv K) : Bool := (argv.argv4.getD "").toList.contains 'S'

/-- `link = (-dist2, n, m)`. -/
def heapLink (dist2 : K) (n m : Nat) : HeapLink K := toLex (-dist2, toLex (n, m))

/-- `link[0]`. -/
def linkKey (link : HeapLink K) : K := (ofLex link).1

/-- `link[1]` and `link[2]`. -/
def linkEnds (link : HeapLink K) : Nat × Nat := ofLex (ofLex link).2

variable (heapq : Heapq (HeapLink K)) (math : PyMath K) (argv : ScaleArgv K)

/-- `node1`, from two outcomes of `random`. They are not negative and below 1, so that `acos` has a
value. -/
def scalePosition (x y : K) : Position K :=
  if argv.spherical then (x * 2 * math.pi, math.acos (2 * y - 1)) else (x, y)

/-- `dist2`. -/
def scaleDist2 (node1 node2 : Position K) : K :=
  if argv.spherical then
    let x1 := math.cos node1.1 * math.sin node1.2
    let y1 := math.sin node1.1 * math.sin node1.2
    let z1 := math.cos node1.2
    let x2 := math.cos node2.1 * math.sin node2.2
    let y2 := math.sin node2.1 * math.sin node2.2
    let z2 := math.cos node2.2
    (x1 - x2) ^ 2 + (y1 - y2) ^ 2 + (z1 - z2) ^ 2
  else planeDist2 node1 node2

/-- The body of the inner loop, behind `dist2`. -/
def scaleCollect (n m : Nat) (dist2 : K) (s : LinkHeap K) : Except PyError (LinkHeap K) :=
  if (s.qlinks : Int) < argv.nlinks then
    .ok { links := heapq.heappush s.links (heapLink dist2 n m), qlinks := s.qlinks + 1 }
  else
    match s.links with
    | [] => .error .indexError
    | top :: _ =>
      if dist2 < -linkKey top then
        .ok { s with links := heapq.heapreplace s.links (heapLink dist2 n m) }
      else .ok s

/-- The inner loop, over the nodes there are. -/
def scaleScan (n : Nat) (node1 : Position K) (nodes : List (Position K)) (s : LinkHeap K) :
    Except PyError (LinkHeap K) :=
  nodes.zipIdx.foldlM (fun s node2 =>
    scaleCollect heapq argv n node2.2 (scaleDist2 math argv node1 node2.1) s) s

/-- The outer loop, over the first `count` nodes; `tape` is what the calls of `random` return. -/
def scaleNodes (tape : Nat → K) (count : Nat) :
    Except PyError (List (Position K) × LinkHeap K) :=
  (List.range count).foldlM (fun (nodes, s) n => do
    let node1 := scalePosition math argv (tape (2 * n)) (tape (2 * n + 1))
    let s ← scaleScan heapq math argv n node1 nodes s
    return (nodes ++ [node1], s)) ([], { links := [], qlinks := 0 })

/-- `scale`. -/
def fieldScale (nrange : K) : Except PyError K :=
  match argv.rrange with
  | none => .ok 1
  | some rrange =>
    if argv.spherical then .ok 1
    else if nrange = 0 then .error .zeroDivisionError
    else .ok (rrange / nrange)

/-- `neigh`, for some number of nodes. The ends of a link are numbers of nodes, so that no index is
out of range, here and where the links are printed. -/
def neighLists (count : Nat) (links : List (HeapLink K)) : List (List Nat) :=
  links.foldl (fun neigh link =>
      (neigh.modify (linkEnds link).1 (· ++ [(linkEnds link).2])).modify (linkEnds link).2
        (· ++ [(linkEnds link).1]))
    (List.replicate count [])

/-- The loops that print, for the nodes `range(0, nnodes)`. -/
def printLinks (nodes : List (Position K)) (neigh : List (List Nat)) (scale : K) :
    List (PrintedLink K) :=
  (List.range argv.nnodes.toNat).flatMap fun n1 =>
    ((neigh.getD n1 []).filter fun n2 => n1 < n2).map fun n2 =>
      let dist := math.sqrt (planeDist2 (nodes.getD n1 (0, 0)) (nodes.getD n2 (0, 0)))
      { n := n1, m := n2, d := dist * scale }

/-- The whole program: the links that are printed, if there is no error. -/
def scaleTopo (tape : Nat → K) : Except PyError (List (PrintedLink K)) := do
  let (nodes, s) ← scaleNodes heapq math argv tape argv.nnodes.toNat
  match s.links with
  | [] => .error .indexError
  | top :: _ =>
    let nrange := math.sqrt (-linkKey top)
    let scale ← fieldScale argv nrange
    let neigh := neighLists nodes.length s.links
    return printLinks math argv nodes neigh scale

end Program

/-! ## The links that are collected -/

/-- The pairs of numbers below `count`, the larger in front, in the order of the loops. -/
def pairsBelow (count : Nat) : List (Nat × Nat) :=
  (List.range count).flatMap fun n => (List.range n).map fun m => (n, m)

theorem pairsBelow_succ (count : Nat) :
    pairsBelow (count + 1) = pairsBelow count ++ (List.range count).map fun m => (count, m) := by
  rw [pairsBelow, List.range_succ, List.flatMap_append, List.flatMap_singleton, pairsBelow]

theorem mem_pairsBelow {count n m : Nat} : (n, m) ∈ pairsBelow count ↔ m < n ∧ n < count := by
  simp only [pairsBelow, List.mem_flatMap, List.mem_map, List.mem_range, Prod.mk.injEq]
  constructor
  · rintro ⟨_, hn, _, hm, rfl, rfl⟩
    exact ⟨hm, hn⟩
  · rintro ⟨hm, hn⟩
    exact ⟨n, hn, m, hm, rfl, rfl⟩

theorem nodup_pairsBelow (count : Nat) : (pairsBelow count).Nodup := by
  induction count with
  | zero => exact List.nodup_nil
  | succ count ih =>
    rw [pairsBelow_succ, List.nodup_append']
    refine ⟨ih, List.nodup_range.map fun _ _ h => (Prod.mk.inj h).2, fun p hold hnew => ?_⟩
    obtain ⟨m, -, rfl⟩ := List.mem_map.mp hnew
    exact lt_irrefl count (mem_pairsBelow.mp hold).2

theorem length_pairsBelow (count : Nat) : (pairsBelow count).length = count * (count - 1) / 2 := by
  induction count with
  | zero => rfl
  | succ count ih =>
    rw [pairsBelow_succ, List.length_append, List.length_map, List.length_range, ih,
      Nat.triangle_succ]

/-- Numbering what a function makes of the first numbers gives them back. -/
theorem zipIdx_map_range {α : Type*} (f : Nat → α) (count : Nat) :
    ((List.range count).map f).zipIdx = (List.range count).map fun n => (f n, n) := by
  refine List.ext_getElem (by rw [List.length_zipIdx, List.length_map, List.length_map])
    fun n _ _ => ?_
  rw [List.getElem_zipIdx, List.getElem_map, List.getElem_map, List.getElem_range, Nat.zero_add]

section Collecting

variable {K : Type*} [Field K] [LinearOrder K] (heapq : Heapq (HeapLink K)) (math : PyMath K)
  (argv : ScaleArgv K) (tape : Nat → K)

/-- The position of a node. -/
def nodeAt (n : Nat) : Position K :=
  scalePosition math argv (tape (2 * n)) (tape (2 * n + 1))

/-- The link between two nodes. -/
def linkAt (p : Nat × Nat) : HeapLink K :=
  heapLink (scaleDist2 math argv (nodeAt math argv tape p.1) (nodeAt math argv tape p.2)) p.1 p.2

/-- The links that are kept, of those between the first nodes. -/
def keptLinks (k count : Nat) : List (HeapLink K) :=
  shortlist heapq linkKey k ((pairsBelow count).map (linkAt math argv tape))

/-- A heap and the number of its links. -/
def heapOf (links : List (HeapLink K)) : LinkHeap K where
  links := links
  qlinks := links.length

variable {heapq math argv tape}

omit [Field K] in
/-- The links are in the heap with the longest in front. -/
theorem linkKey_mono : Monotone (linkKey : HeapLink K → K) := Prod.Lex.monotone_fst_ofLex

variable [IsStrictOrderedRing K] {k : Nat}

/-- The body of the inner loop offers a link. -/
theorem scaleCollect_shortlist (hk : argv.nlinks = k) (hpos : 0 < k) (n m : Nat) (dist2 : K)
    (items : List (HeapLink K)) :
    scaleCollect heapq argv n m dist2 (heapOf (shortlist heapq linkKey k items)) =
      .ok (heapOf (shortlist heapq linkKey k (items ++ [heapLink dist2 n m]))) := by
  have hheap : IsHeap (shortlist heapq linkKey k items) :=
    (shortlist_spec heapq k linkKey_mono items).1
  rw [shortlist_concat]
  generalize shortlist heapq linkKey k items = heap at hheap
  rw [scaleCollect, hk]
  by_cases hroom : (heapOf heap).qlinks < k
  · have hlength := (heapq.heappush_perm (heapLink dist2 n m) hheap).length_eq
    rw [if_pos (Int.ofNat_lt.mpr hroom), offer_of_lt hroom, heapOf, heapOf, hlength]
    rfl
  rw [if_neg fun h => hroom (Int.ofNat_lt.mp h)]
  cases heap with
  | nil => exact absurd hpos hroom
  | cons top rest =>
    rw [offer_cons hroom]
    change (if dist2 < -linkKey top then _ else _) = _
    by_cases hlt : linkKey top < linkKey (heapLink dist2 n m)
    · have hlength := (heapq.heapreplace_perm (heapLink dist2 n m) hheap).length_eq
      rw [if_pos (lt_neg.mp hlt), if_pos hlt, heapOf, heapOf, hlength]
      rfl
    · rw [if_neg fun h => hlt (lt_neg.mpr h), if_neg hlt]

/-- The inner loop offers the links to the nodes there are. -/
theorem scaleScan_shortlist (hk : argv.nlinks = k) (hpos : 0 < k) (n : Nat) (node1 : Position K)
    (nodes : List (Position K)) (items : List (HeapLink K)) :
    scaleScan heapq math argv n node1 nodes (heapOf (shortlist heapq linkKey k items)) =
      .ok (heapOf (shortlist heapq linkKey k (items ++ nodes.zipIdx.map fun node2 =>
        heapLink (scaleDist2 math argv node1 node2.1) n node2.2))) := by
  rw [scaleScan]
  generalize nodes.zipIdx = numbered
  induction numbered generalizing items with
  | nil =>
    rw [List.map_nil, List.append_nil]
    rfl
  | cons node2 numbered ih =>
    rw [List.foldlM_cons, scaleCollect_shortlist hk hpos]
    refine (ih _).trans ?_
    rw [List.map_cons, List.append_assoc]
    rfl

/-- The loops keep a shortlist of all links. -/
theorem scaleNodes_eq (hk : argv.nlinks = k) (hpos : 0 < k) (count : Nat) :
    scaleNodes heapq math argv tape count =
      .ok ((List.range count).map (nodeAt math argv tape),
        heapOf (keptLinks heapq math argv tape k count)) := by
  induction count with
  | zero => rfl
  | succ count ih =>
    rw [scaleNodes] at ih ⊢
    have hscan : scaleScan heapq math argv count (nodeAt math argv tape count)
        ((List.range count).map (nodeAt math argv tape))
        (heapOf (keptLinks heapq math argv tape k count)) =
        .ok (heapOf (keptLinks heapq math argv tape k (count + 1))) := by
      rw [keptLinks, scaleScan_shortlist hk hpos, keptLinks, pairsBelow_succ, List.map_append,
        zipIdx_map_range, List.map_map, List.map_map]
      rfl
    rw [List.range_succ, List.foldlM_append, ih]
    change (scaleScan heapq math argv count (nodeAt math argv tape count) _ _ >>= _) >>= _ = _
    rw [hscan, List.map_append]
    rfl

end Collecting

section Kept

variable {K : Type*} [Field K] [LinearOrder K] {heapq : Heapq (HeapLink K)} {math : PyMath K}
  {argv : ScaleArgv K} {tape : Nat → K} {k count : Nat} {kept : List (HeapLink K)}
  {dropped : Multiset (HeapLink K)}

variable (math argv tape k count kept dropped) in
/-- What holds of the heap, with the links that are not in it. -/
structure Kept : Prop where
  /-- It is a heap. -/
  heap : IsHeap kept
  /-- It holds a selection of the shortest links. -/
  short : Shortlist linkKey k kept dropped
  /-- With those dropped, these are all links there are. -/
  links : (kept : Multiset (HeapLink K)) + dropped =
    ((pairsBelow count).map (linkAt math argv tape) : List (HeapLink K))

variable (heapq math argv tape) in
/-- It holds of the heap behind the loops. -/
theorem exists_kept (k count : Nat) :
    ∃ dropped, Kept math argv tape k count (keptLinks heapq math argv tape k count) dropped := by
  obtain ⟨hheap, dropped, hlinks, hshort⟩ :=
    shortlist_spec heapq k linkKey_mono ((pairsBelow count).map (linkAt math argv tape))
  exact ⟨dropped, hheap, hshort, hlinks⟩

/-- Each link that is kept is the one between two nodes. -/
theorem Kept.exists_of_mem (h : Kept math argv tape k count kept dropped) {link : HeapLink K}
    (hlink : link ∈ kept) : ∃ p ∈ pairsBelow count, linkAt math argv tape p = link := by
  have hmem : link ∈ (kept : Multiset (HeapLink K)) + dropped :=
    Multiset.mem_add.mpr (Or.inl (Multiset.mem_coe.mpr hlink))
  rw [h.links] at hmem
  exact List.mem_map.mp hmem

theorem Kept.linkAt_ends (h : Kept math argv tape k count kept dropped) {link : HeapLink K}
    (hlink : link ∈ kept) : linkAt math argv tape (linkEnds link) = link := by
  obtain ⟨p, -, rfl⟩ := h.exists_of_mem hlink
  rfl

theorem Kept.ends_lt (h : Kept math argv tape k count kept dropped) :
    ∀ link ∈ kept, (linkEnds link).2 < (linkEnds link).1 ∧ (linkEnds link).1 < count := by
  intro link hlink
  obtain ⟨p, hp, rfl⟩ := h.exists_of_mem hlink
  exact mem_pairsBelow.mp hp

/-- No two of them are between the same nodes. -/
theorem Kept.nodup (h : Kept math argv tape k count kept dropped) :
    (kept.map linkEnds).Nodup := by
  have hle : (kept : Multiset (HeapLink K)).map linkEnds ≤
      ((kept : Multiset (HeapLink K)) + dropped).map linkEnds :=
    Multiset.map_le_map (Multiset.le_add_right ..)
  have hends : ((pairsBelow count).map (linkAt math argv tape)).map linkEnds =
      pairsBelow count := by
    rw [List.map_map]
    exact List.map_id _
  rw [h.links, Multiset.map_coe, Multiset.map_coe, hends] at hle
  exact Multiset.coe_nodup.mp (Multiset.nodup_of_le hle (nodup_pairsBelow count))

/-- There are as many as were asked for. -/
theorem Kept.length_eq (h : Kept math argv tape k count kept dropped)
    (hle : k ≤ count * (count - 1) / 2) : kept.length = k := by
  by_cases hnone : dropped = 0
  · have hcard := congrArg Multiset.card h.links
    rw [hnone, add_zero, Multiset.coe_card, Multiset.coe_card, List.length_map,
      length_pairsBelow] at hcard
    have hbound : kept.length ≤ k := h.short.card_le
    omega
  · exact h.short.full hnone

variable (heapq math argv tape) in
/-- There is a longest link. -/
theorem exists_top (hpos : 0 < k) (hle : k ≤ count * (count - 1) / 2) :
    ∃ top rest dropped, keptLinks heapq math argv tape k count = top :: rest ∧
      Kept math argv tape k count (top :: rest) dropped := by
  obtain ⟨dropped, h⟩ := exists_kept heapq math argv tape k count
  have hlength := h.length_eq hle
  generalize keptLinks heapq math argv tape k count = kept at h hlength
  cases kept with
  | nil => exact absurd hlength hpos.ne
  | cons top rest => exact ⟨top, rest, dropped, rfl, h⟩

/-- A pair that is left out is no closer than one that is kept. -/
theorem Kept.key_le (h : Kept math argv tape k count kept dropped) {p : Nat × Nat}
    (hp : p ∈ pairsBelow count) (hout : p ∉ kept.map linkEnds) {link : HeapLink K}
    (hlink : link ∈ kept) : linkKey (linkAt math argv tape p) ≤ linkKey link := by
  have hmem : linkAt math argv tape p ∈ (kept : Multiset (HeapLink K)) + dropped := by
    rw [h.links]
    exact List.mem_map_of_mem hp
  rcases Multiset.mem_add.mp hmem with hin | hdropped
  · exact absurd (List.mem_map_of_mem (f := linkEnds) (Multiset.mem_coe.mp hin)) hout
  · exact h.short.le link hlink _ hdropped

variable [IsStrictOrderedRing K]

theorem scaleDist2_nonneg (node1 node2 : Position K) : 0 ≤ scaleDist2 math argv node1 node2 := by
  rw [scaleDist2]
  split
  · exact add_nonneg (add_nonneg (sq_nonneg _) (sq_nonneg _)) (sq_nonneg _)
  · exact planeDist2_nonneg ..

/-- The longest link that is kept has length zero exactly when enough pairs of nodes have. -/
theorem Kept.key_top_eq_zero_iff {top : HeapLink K} {rest : List (HeapLink K)}
    (h : Kept math argv tape k count (top :: rest) dropped) (hle : k ≤ count * (count - 1) / 2) :
    linkKey top = 0 ↔ k ≤ (pairsBelow count).countP fun p =>
      scaleDist2 math argv (nodeAt math argv tape p.1) (nodeAt math argv tape p.2) = 0 := by
  have hcount : ((pairsBelow count).map (linkAt math argv tape)).countP (linkKey · = 0) =
      (pairsBelow count).countP fun p =>
        scaleDist2 math argv (nodeAt math argv tape p.1) (nodeAt math argv tape p.2) = 0 := by
    rw [List.countP_map]
    refine List.countP_congr fun p _ => ?_
    simp only [Function.comp_apply, decide_eq_true_eq]
    exact neg_eq_zero
  rw [h.short.key_eq_iff (h.length_eq hle) (Multiset.mem_coe.mpr List.mem_cons_self)
    (fun link hlink => linkKey_mono (h.heap.head_le link hlink)), h.links, Multiset.coe_countP,
    hcount]
  intro link hlink
  rw [h.links] at hlink
  obtain ⟨p, -, rfl⟩ := List.mem_map.mp hlink
  exact neg_nonpos.mpr (scaleDist2_nonneg ..)

end Kept

/-! ## The links that are printed -/

section Neighbours

variable {K : Type*}

/-- The neighbours that a node gets, link by link. -/
def neighboursOf (a : Nat) (links : List (HeapLink K)) : List Nat :=
  links.flatMap fun link =>
    (if (linkEnds link).1 = a then [(linkEnds link).2] else []) ++
      (if (linkEnds link).2 = a then [(linkEnds link).1] else [])

theorem neighboursOf_cons (a : Nat) (link : HeapLink K) (links : List (HeapLink K)) :
    neighboursOf a (link :: links) =
      (if (linkEnds link).1 = a then [(linkEnds link).2] else []) ++
        (if (linkEnds link).2 = a then [(linkEnds link).1] else []) ++ neighboursOf a links :=
  List.flatMap_cons

/-- Every node gets its own. -/
theorem getElem?_neighLists {count a : Nat} (ha : a < count) (links : List (HeapLink K)) :
    (neighLists count links)[a]? = some (neighboursOf a links) := by
  have hloop : ∀ neigh : List (List Nat), (links.foldl (fun neigh link =>
      (neigh.modify (linkEnds link).1 (· ++ [(linkEnds link).2])).modify (linkEnds link).2
        (· ++ [(linkEnds link).1])) neigh)[a]? =
      neigh[a]?.map (· ++ neighboursOf a links) := by
    induction links with
    | nil =>
      intro neigh
      simp [neighboursOf]
    | cons link links ih =>
      intro neigh
      rw [List.foldl_cons, ih, List.getElem?_modify, List.getElem?_modify, neighboursOf_cons]
      cases neigh[a]? with
      | none => rfl
      | some before =>
        by_cases h1 : (linkEnds link).1 = a <;> by_cases h2 : (linkEnds link).2 = a <;>
          simp [h1, h2]
  rw [neighLists, hloop, List.getElem?_replicate, if_pos ha]
  rfl

/-- Behind a node, its neighbours are those whose links end at it. -/
theorem filter_neighboursOf {a : Nat} {links : List (HeapLink K)}
    (hends : ∀ link ∈ links, (linkEnds link).2 < (linkEnds link).1) :
    (neighboursOf a links).filter (fun b => a < b) =
      ((links.map linkEnds).filter fun ends => ends.2 = a).map Prod.fst := by
  induction links with
  | nil => rfl
  | cons link links ih =>
    obtain ⟨hlink, hlinks⟩ := List.forall_mem_cons.mp hends
    rw [neighboursOf_cons, List.filter_append, ih hlinks, List.map_cons, List.filter_cons]
    by_cases h1 : (linkEnds link).1 = a
    · have h2 : (linkEnds link).2 ≠ a := by omega
      have hback : ¬ a < (linkEnds link).2 := by omega
      simp [h1, h2, hback]
    · by_cases h2 : (linkEnds link).2 = a
      · have hfront : a < (linkEnds link).1 := by omega
        simp [h1, h2, hfront]
      · simp [h1, h2]

end Neighbours

section Printing

variable {K : Type*} [Field K] {math : PyMath K} {argv : ScaleArgv K}
  {nodes : List (Position K)} {links : List (HeapLink K)} {scale : K} {count : Nat}

/-- Each node prints the links that end at it. -/
theorem linkPairs_printLinks (hcount : argv.nnodes = count)
    (hends : ∀ link ∈ links, (linkEnds link).2 < (linkEnds link).1) :
    linkPairs (printLinks math argv nodes (neighLists count links) scale) =
      (List.range count).flatMap fun a =>
        ((links.map linkEnds).filter fun ends => ends.2 = a).map Prod.swap := by
  rw [linkPairs, printLinks, hcount, Int.toNat_natCast, List.map_flatMap]
  refine List.flatMap_congr fun a ha => ?_
  have hneigh : (neighLists count links).getD a [] = neighboursOf a links := by
    rw [List.getD_eq_getElem?_getD, getElem?_neighLists (List.mem_range.mp ha)]
    rfl
  rw [hneigh, filter_neighboursOf hends, List.map_map, List.map_map]
  refine List.map_congr_left fun ends hmem => ?_
  rw [← of_decide_eq_true (List.mem_filter.mp hmem).2]
  rfl

/-- A pair is printed if its link is there. -/
theorem mem_printLinks (hcount : argv.nnodes = count)
    (hends : ∀ link ∈ links, (linkEnds link).2 < (linkEnds link).1 ∧ (linkEnds link).1 < count)
    {a b : Nat} :
    (a, b) ∈ linkPairs (printLinks math argv nodes (neighLists count links) scale) ↔
      (b, a) ∈ links.map linkEnds := by
  rw [linkPairs_printLinks hcount fun link hlink => (hends link hlink).1, List.mem_flatMap]
  constructor
  · rintro ⟨_, -, hmem⟩
    obtain ⟨⟨n, m⟩, hfilter, heq⟩ := List.mem_map.mp hmem
    cases heq
    exact (List.mem_filter.mp hfilter).1
  · intro hmem
    obtain ⟨link, hlink, heq⟩ := List.mem_map.mp hmem
    have hbelow := hends link hlink
    rw [heq] at hbelow
    refine ⟨a, List.mem_range.mpr (hbelow.1.trans hbelow.2), List.mem_map.mpr ⟨(b, a), ?_, rfl⟩⟩
    exact List.mem_filter.mpr ⟨hmem, decide_eq_true rfl⟩

/-- No pair is printed twice. -/
theorem nodup_printLinks (hcount : argv.nnodes = count)
    (hends : ∀ link ∈ links, (linkEnds link).2 < (linkEnds link).1)
    (hnodup : (links.map linkEnds).Nodup) :
    (linkPairs (printLinks math argv nodes (neighLists count links) scale)).Nodup := by
  rw [linkPairs_printLinks hcount hends, List.nodup_flatMap]
  refine ⟨fun a _ => (hnodup.filter _).map Prod.swap_injective, ?_⟩
  refine List.nodup_range.imp fun hne p hp hq => hne ?_
  obtain ⟨_, hfirst, rfl⟩ := List.mem_map.mp hp
  obtain ⟨_, hsecond, heq⟩ := List.mem_map.mp hq
  cases Prod.swap_injective heq
  have ha := of_decide_eq_true (List.mem_filter.mp hfirst).2
  have hb := of_decide_eq_true (List.mem_filter.mp hsecond).2
  exact ha.symm.trans hb

/-- Behind a pair, its distance in the picture is printed. -/
theorem d_of_mem_printLinks {neigh : List (List Nat)} {l : PrintedLink K}
    (h : l ∈ printLinks math argv nodes neigh scale) :
    l.d = math.sqrt (planeDist2 (nodes.getD l.n (0, 0)) (nodes.getD l.m (0, 0))) * scale := by
  obtain ⟨n1, -, h⟩ := List.mem_flatMap.mp h
  obtain ⟨n2, -, rfl⟩ := List.mem_map.mp h
  rfl

end Printing

/-! ## The whole program -/

section Whole

variable {K : Type*} [Field K] [LinearOrder K] {heapq : Heapq (HeapLink K)} {math : PyMath K}
  {argv : ScaleArgv K} {tape : Nat → K}

/-- There is a scale unless the program would have to divide by zero. -/
theorem exists_fieldScale_iff {nrange : K} :
    (∃ scale, fieldScale argv nrange = .ok scale) ↔
      argv.rrange = none ∨ argv.spherical = true ∨ nrange ≠ 0 := by
  rw [fieldScale]
  cases argv.rrange with
  | none => exact iff_of_true ⟨1, rfl⟩ (Or.inl rfl)
  | some rrange =>
    dsimp only
    split_ifs with hspherical hzero
    · exact iff_of_true ⟨1, rfl⟩ (Or.inr (Or.inl hspherical))
    · simp [hspherical, hzero]
    · exact iff_of_true ⟨_, rfl⟩ (Or.inr (Or.inr hzero))

/-- With a link in the heap, the program prints all links there unless it finds no scale. -/
theorem scaleTopo_eq [IsStrictOrderedRing K] {k count : Nat} {top : HeapLink K}
    {rest : List (HeapLink K)} (hcount : argv.nnodes = count) (hk : argv.nlinks = k) (hpos : 0 < k)
    (hkept : keptLinks heapq math argv tape k count = top :: rest) :
    scaleTopo heapq math argv tape = (do
      let scale ← fieldScale argv (math.sqrt (-linkKey top))
      return printLinks math argv ((List.range count).map (nodeAt math argv tape))
        (neighLists count (top :: rest)) scale) := by
  rw [scaleTopo, hcount, Int.toNat_natCast, scaleNodes_eq hk hpos, hkept]
  change (do
    let scale ← fieldScale argv (math.sqrt (-linkKey top))
    return printLinks math argv ((List.range count).map (nodeAt math argv tape))
      (neighLists ((List.range count).map (nodeAt math argv tape)).length (top :: rest)) scale) = _
  rw [List.length_map, List.length_range]

end Whole

/-- `k` pairs out of `count` numbers, each once with the smaller in front, of which none is longer
than one that is left out. -/
structure ShortestPairs (dist : Nat → Nat → ℝ) (count k : Nat) (pairs : List (Nat × Nat)) :
    Prop where
  /-- No pair is there twice. -/
  nodup : pairs.Nodup
  /-- There are `k`. -/
  length_eq : pairs.length = k
  /-- The smaller number is in front. -/
  ends_lt : ∀ a b, (a, b) ∈ pairs → a < b ∧ b < count
  /-- No pair that is left out is shorter. -/
  shortest : ∀ a b c d, (a, b) ∈ pairs → c < d → d < count → (c, d) ∉ pairs →
    ¬ dist c d < dist a b

section Distances

variable {heapq : Heapq (HeapLink ℝ)} {argv : ScaleArgv ℝ} {tape : Nat → ℝ} {k count : Nat}
  {kept : List (HeapLink ℝ)} {dropped : Multiset (HeapLink ℝ)}

variable (argv tape) in
/-- The distance that counts between two nodes. -/
noncomputable def nodeDist (a b : Nat) : ℝ :=
  √(scaleDist2 realMath argv (nodeAt realMath argv tape a) (nodeAt realMath argv tape b))

variable (argv tape count) in
/-- How many pairs of nodes are at one place. -/
noncomputable def coincident : Nat :=
  (pairsBelow count).countP fun p => nodeAt realMath argv tape p.1 = nodeAt realMath argv tape p.2

theorem nodeDist_comm (a b : Nat) : nodeDist argv tape a b = nodeDist argv tape b a := by
  rw [nodeDist, nodeDist, scaleDist2, scaleDist2]
  split
  · congr 1
    ring
  · rw [planeDist2_comm]

/-- The links that are kept make the shortest pairs, when they are printed. -/
theorem Kept.shortestPairs (h : Kept realMath argv tape k count kept dropped)
    (hcount : argv.nnodes = count) (hle : k ≤ count * (count - 1) / 2)
    (nodes : List (Position ℝ)) (scale : ℝ) :
    ShortestPairs (nodeDist argv tape) count k
      (linkPairs (printLinks realMath argv nodes (neighLists count kept) scale)) := by
  have hends := h.ends_lt
  have hmem : ∀ a b, (a, b) ∈ linkPairs (printLinks realMath argv nodes (neighLists count kept)
      scale) ↔ (b, a) ∈ kept.map linkEnds := fun a b => mem_printLinks hcount hends
  have hnodup : (linkPairs (printLinks realMath argv nodes (neighLists count kept) scale)).Nodup :=
    nodup_printLinks hcount (fun link hlink => (hends link hlink).1) h.nodup
  constructor
  case nodup => exact hnodup
  case length_eq =>
    have hperm : (linkPairs (printLinks realMath argv nodes (neighLists count kept) scale)).Perm
        ((kept.map linkEnds).map Prod.swap) := by
      refine (List.perm_ext_iff_of_nodup hnodup (h.nodup.map Prod.swap_injective)).mpr
        fun ⟨a, b⟩ => ?_
      rw [hmem]
      exact (List.mem_map_of_injective (a := (b, a)) Prod.swap_injective).symm
    rw [hperm.length_eq, List.length_map, List.length_map, h.length_eq hle]
  case ends_lt =>
    intro a b hab
    obtain ⟨link, hlink, heq⟩ := List.mem_map.mp ((hmem a b).mp hab)
    have hlt := hends link hlink
    rwa [heq] at hlt
  case shortest =>
    intro a b c d hab hcd hd hout
    obtain ⟨link, hlink, heq⟩ := List.mem_map.mp ((hmem a b).mp hab)
    obtain ⟨p, -, rfl⟩ := h.exists_of_mem hlink
    obtain rfl : p = (b, a) := heq
    have hkey := h.key_le (mem_pairsBelow.mpr ⟨hcd, hd⟩)
      (fun hin => hout ((hmem c d).mpr hin)) hlink
    rw [nodeDist_comm a, nodeDist_comm c, not_lt]
    exact Real.sqrt_le_sqrt (neg_le_neg_iff.mp hkey)

/-- The program prints the shortest links unless there is a radio range for a plane, and all the
links that it keeps have length zero. -/
theorem exists_shortestPairs_iff (hcount : argv.nnodes = count) (hk : argv.nlinks = k)
    (hpos : 1 ≤ k) (hle : k ≤ count * (count - 1) / 2) :
    (∃ printed, scaleTopo heapq realMath argv tape = .ok printed ∧
        ShortestPairs (nodeDist argv tape) count k (linkPairs printed)) ↔
      argv.rrange = none ∨ argv.spherical = true ∨ ((pairsBelow count).countP fun p =>
        scaleDist2 realMath argv (nodeAt realMath argv tape p.1)
          (nodeAt realMath argv tape p.2) = 0) < k := by
  obtain ⟨top, rest, dropped, hkept, h⟩ := exists_top heapq realMath argv tape hpos hle
  have hrun : (∃ printed, scaleTopo heapq realMath argv tape = .ok printed ∧
      ShortestPairs (nodeDist argv tape) count k (linkPairs printed)) ↔
      ∃ scale, fieldScale argv (realMath.sqrt (-linkKey top)) = .ok scale := by
    rw [scaleTopo_eq hcount hk hpos hkept]
    cases fieldScale argv (realMath.sqrt (-linkKey top)) with
    | error e =>
      refine iff_of_false ?_ ?_
      · rintro ⟨_, hrun, -⟩
        cases hrun
      · rintro ⟨_, hscale⟩
        cases hscale
    | ok scale =>
      exact iff_of_true ⟨_, rfl, h.shortestPairs hcount hle _ scale⟩ ⟨scale, rfl⟩
  have hnonneg : 0 ≤ -linkKey top := by
    obtain ⟨p, -, rfl⟩ := h.exists_of_mem List.mem_cons_self
    exact (scaleDist2_nonneg ..).trans_eq (neg_neg _).symm
  have hzero : realMath.sqrt (-linkKey top) = 0 ↔ linkKey top = 0 :=
    (Real.sqrt_eq_zero hnonneg).trans neg_eq_zero
  rw [hrun, exists_fieldScale_iff, Ne, hzero, h.key_top_eq_zero_iff hle, not_le]

/-- In a plane, a printed distance is that of a link that is kept, scaled. -/
theorem Kept.d_of_mem (h : Kept realMath argv tape k count kept dropped)
    (hplane : argv.spherical = false) (hcount : argv.nnodes = count) {scale : ℝ}
    {l : PrintedLink ℝ}
    (hl : l ∈ printLinks realMath argv ((List.range count).map (nodeAt realMath argv tape))
      (neighLists count kept) scale) :
    ∃ link ∈ kept, linkEnds link = (l.m, l.n) ∧ l.d = √(-linkKey link) * scale := by
  have hpair : (l.n, l.m) ∈ linkPairs (printLinks realMath argv
      ((List.range count).map (nodeAt realMath argv tape)) (neighLists count kept) scale) :=
    List.mem_map_of_mem hl
  rw [mem_printLinks hcount h.ends_lt] at hpair
  obtain ⟨link, hlink, hends⟩ := List.mem_map.mp hpair
  refine ⟨link, hlink, hends, ?_⟩
  obtain ⟨p, hp, rfl⟩ := h.exists_of_mem hlink
  obtain rfl : p = (l.m, l.n) := hends
  obtain ⟨hlt, hbelow⟩ := mem_pairsBelow.mp hp
  have hnode : ∀ a, a < count → ((List.range count).map (nodeAt realMath argv tape)).getD a (0, 0) =
      nodeAt realMath argv tape a := fun a ha => by
    rw [List.getD_eq_getElem?_getD, List.getElem?_map, List.getElem?_range ha]
    rfl
  have hkey : -linkKey (linkAt realMath argv tape (l.m, l.n)) =
      planeDist2 (nodeAt realMath argv tape l.m) (nodeAt realMath argv tape l.n) := by
    refine (neg_neg _).trans ?_
    rw [scaleDist2, if_neg (by rw [hplane]; decide)]
  rw [d_of_mem_printLinks hl, hnode _ hbelow, hnode _ (hlt.trans hbelow), planeDist2_comm, hkey]
  rfl

/-- The picture is scaled so that the longest link has the radio range. -/
theorem scaleTopo_range {rrange : ℝ} {printed : List (PrintedLink ℝ)}
    (hcount : argv.nnodes = count) (hk : argv.nlinks = k) (hpos : 1 ≤ k)
    (hle : k ≤ count * (count - 1) / 2) (hplane : argv.spherical = false)
    (hrange : argv.rrange = some rrange) (hrpos : 0 < rrange)
    (h : scaleTopo heapq realMath argv tape = .ok printed) :
    (∀ l ∈ printed, l.d ≤ rrange) ∧ ∃ l ∈ printed, l.d = rrange := by
  obtain ⟨top, rest, dropped, hkept, hsome⟩ := exists_top heapq realMath argv tape hpos hle
  have hscale : fieldScale argv (√(-linkKey top)) =
      if √(-linkKey top) = 0 then .error .zeroDivisionError
      else .ok (rrange / √(-linkKey top)) := by
    rw [fieldScale, hrange]
    exact if_neg (by rw [hplane]; decide)
  rw [scaleTopo_eq hcount hk hpos hkept] at h
  change (fieldScale argv (√(-linkKey top)) >>= _) = _ at h
  rw [hscale] at h
  split at h
  · cases h
  rename_i hzero
  have hlongest : 0 < √(-linkKey top) := (Real.sqrt_nonneg _).lt_of_ne' hzero
  cases h
  constructor
  · intro l hl
    obtain ⟨link, hlink, -, hd⟩ := hsome.d_of_mem hplane hcount hl
    have hle : √(-linkKey link) ≤ √(-linkKey top) :=
      Real.sqrt_le_sqrt (neg_le_neg (linkKey_mono (hsome.heap.head_le link hlink)))
    calc l.d = √(-linkKey link) * (rrange / √(-linkKey top)) := hd
      _ ≤ √(-linkKey top) * (rrange / √(-linkKey top)) :=
        mul_le_mul_of_nonneg_right hle (div_pos hrpos hlongest).le
      _ = rrange := mul_div_cancel₀ _ hzero
  · -- the link in front of the heap is printed, and no other is between the same nodes
    have htop : ((linkEnds top).1, (linkEnds top).2) ∈ (top :: rest).map linkEnds :=
      List.mem_map_of_mem List.mem_cons_self
    obtain ⟨l, hl, hends⟩ := List.mem_map.mp ((mem_printLinks hcount hsome.ends_lt).mpr htop)
    obtain ⟨link, hlink, hends', hd⟩ := hsome.d_of_mem hplane hcount hl
    have hsame : link = top := by
      obtain ⟨hn, hm⟩ := Prod.mk.inj hends
      rw [← hsome.linkAt_ends hlink, hends', hn, hm]
      exact hsome.linkAt_ends List.mem_cons_self
    refine ⟨l, hl, ?_⟩
    rw [hd, hsame]
    exact mul_div_cancel₀ _ hzero

/-- The program prints the shortest links unless there is a radio range for a plane, and as many
pairs of nodes at one place as there are links to print. -/
theorem scaleTopo_iff (hcount : argv.nnodes = count) (hk : argv.nlinks = k) (hpos : 1 ≤ k)
    (hle : k ≤ count * (count - 1) / 2) :
    (∃ printed, scaleTopo heapq realMath argv tape = .ok printed ∧
        ShortestPairs (nodeDist argv tape) count k (linkPairs printed)) ↔
      argv.rrange = none ∨ argv.spherical = true ∨ coincident argv tape count < k := by
  rw [exists_shortestPairs_iff hcount hk hpos hle]
  refine or_congr_right ?_
  by_cases hspherical : argv.spherical = true
  · exact iff_of_true (Or.inl hspherical) (Or.inl hspherical)
  · simp only [scaleDist2, if_neg hspherical, planeDist2_eq_zero_iff, coincident]

/-- Two nodes at different places, with the radio range 1. -/
theorem scaleTopo_iff_two :
    ∃ printed, scaleTopo binaryHeapq realMath ⟨2, some 1, some 1, none⟩ (fun i => i / 4) =
        .ok printed ∧
      ShortestPairs (nodeDist ⟨2, some 1, some 1, none⟩ fun i => i / 4) 2 1
        (linkPairs printed) := by
  have hnone : coincident ⟨2, some 1, some 1, none⟩ (fun i => (i : ℝ) / 4) 2 = 0 := by
    refine List.countP_eq_zero.mpr fun p hp => ?_
    obtain rfl : p = (1, 0) := List.mem_singleton.mp hp
    norm_num [nodeAt, scalePosition, ScaleArgv.spherical]
  have hfew : coincident ⟨2, some 1, some 1, none⟩ (fun i => (i : ℝ) / 4) 2 < 1 :=
    hnone.trans_lt Nat.one_pos
  exact (scaleTopo_iff rfl rfl le_rfl le_rfl).mpr (Or.inr (Or.inr hfew))

/-- Two nodes at one place: the radio range is divided by zero, and nothing is printed. -/
theorem scaleTopo_same_place :
    ¬ ∀ (heapq : Heapq (HeapLink ℝ)) (argv : ScaleArgv ℝ) (tape : Nat → ℝ) (count k : Nat),
      argv.nnodes = count → argv.nlinks = k → 1 ≤ k → k ≤ count * (count - 1) / 2 →
      ∃ printed, scaleTopo heapq realMath argv tape = .ok printed ∧
        ShortestPairs (nodeDist argv tape) count k (linkPairs printed) := by
  intro h
  have hprinted := h binaryHeapq ⟨2, some 1, some 1, none⟩ (fun _ => 1 / 2) 2 1 rfl rfl le_rfl
    le_rfl
  rcases (exists_shortestPairs_iff rfl rfl le_rfl le_rfl).mp hprinted with
    hrange | hspherical | hcount
  · simp [ScaleArgv.rrange] at hrange
  · exact absurd hspherical (by decide)
  · rw [List.countP_eq_length.mpr] at hcount
    · exact absurd hcount (by decide)
    · intro p _
      have hplane : planeDist2 (1 / 2, 1 / 2) ((1 / 2, 1 / 2) : Position ℝ) = 0 :=
        planeDist2_eq_zero_iff.mpr rfl
      exact decide_eq_true hplane

end Distances

end OldRadio.Tools
