import OldRadio.Second.TopoFile
import OldRadio.Second.WakeWave
import OldRadio.Tools.SpreadTopo

/-!
# Simulating spread nodes

What `spread_topo.py` prints, as the simulator reads it: the links of the table
are the pairs in reach. As they connect all nodes, the first node wakes every
other one.
-/

namespace OldRadio.Tools

open Library Second

/-- `"%d" % n`. -/
def pyDecimal (n : Int) : List Char :=
  if n < 0 then '-' :: Nat.toDigits 10 n.natAbs else Nat.toDigits 10 n.natAbs

theorem oneLine_pyDecimal {n k : Nat} (hk : 0 < k) (h : n < 10 ^ k) : OneLine k (pyDecimal n) := by
  rw [pyDecimal, if_neg (by omega), Int.natAbs_natCast]
  exact oneLine_toDigits hk h

/-! ## The file -/

section Spread

variable {K : Type*} [Field K] [LinearOrder K] (argv0 seed : List Char) (pyFloat : K → List Char)
  (argv : SpreadArgv K)

/-- The lines in front of the nodes. -/
def spreadHeader : List FileLine :=
  [.comment (" Generated by ".toList ++ argv0),
    .comment " Version $Id: spread_topo.py,v 1.3 2010-02-01 05:05:31 nick Exp $".toList,
    .comment (" NNODES ".toList ++ pyDecimal argv.nnodes),
    .comment (" MINRANGE ".toList ++ pyFloat argv.minrange),
    .comment (" MAXRANGE ".toList ++ pyFloat argv.maxrange),
    .comment (" seed ".toList ++ seed)]

/-- The line of a node. -/
def spreadNodeLine (n : Nat) (node1 : Position K) : FileLine :=
  .comment (' ' :: (pyDecimal n ++ "\t= ".toList ++ pyFloat node1.1 ++ ", ".toList ++
    pyFloat node1.2))

/-- The line of a link. -/
def spreadLinkLine (l : PrintedLink K) : FileLine :=
  .link l.n l.m '\t' (" # ".toList ++ pyFloat l.d)

/-- The lines in front of the links. The first node has no line. -/
def spreadComments (s : SpreadState K) : List FileLine :=
  spreadHeader argv0 seed pyFloat argv ++
    (s.nodes.zipIdx.drop 1).map (fun node1 => spreadNodeLine pyFloat node1.2 node1.1) ++
    [.comment (" NLINKS ".toList ++ pyDecimal s.links.length),
      .comment (" mean_degree ".toList ++
        pyFloat ((2 : Nat) * (s.links.length : K) / (s.nodes.length : K)))]

/-- All that is printed. -/
def spreadLines (s : SpreadState K) : List FileLine :=
  spreadComments argv0 seed pyFloat argv s ++ s.links.map (spreadLinkLine pyFloat)

variable {argv0 seed pyFloat argv} {s : SpreadState K}

/-- Lines in front and some of the links. -/
theorem fileLinks_spreadComments_append (links : List (PrintedLink K)) :
    fileLinks (spreadComments argv0 seed pyFloat argv s ++ links.map (spreadLinkLine pyFloat)) =
      linkPairs links := by
  have hnodes : ((s.nodes.zipIdx.drop 1).map fun node1 =>
      spreadNodeLine pyFloat node1.2 node1.1).flatMap FileLine.ends = [] := by
    rw [List.flatMap_map, List.flatMap_eq_nil_iff]
    exact fun _ _ => rfl
  have hlinks : (links.map (spreadLinkLine pyFloat)).flatMap FileLine.ends = linkPairs links := by
    rw [List.flatMap_map, linkPairs]
    exact List.map_eq_flatMap.symm
  rw [fileLinks, spreadComments, List.flatMap_append, List.flatMap_append, List.flatMap_append,
    hnodes, hlinks]
  rfl

/-- The links of the file are those that were collected. -/
theorem fileLinks_spreadLines :
    fileLinks (spreadLines argv0 seed pyFloat argv s) = linkPairs s.links :=
  fileLinks_spreadComments_append s.links

/-- There are fewer links than pairs of nodes. -/
theorem SpreadOut.length_links_le (h : SpreadOut argv s) :
    s.links.length ≤ s.nodes.length * s.nodes.length := by
  have hsub : linkPairs s.links ⊆ List.range s.nodes.length ×ˢ List.range s.nodes.length := by
    rintro ⟨n, m⟩ hmem
    obtain ⟨hlt, p, -, hp, -⟩ := (h.mem_links n m).mp hmem
    have hn := (List.getElem?_eq_some_iff.mp hp).1
    exact List.mem_product.mpr ⟨List.mem_range.mpr hn, List.mem_range.mpr (hlt.trans hn)⟩
  have := (h.nodup.subperm hsub).length_le
  rwa [linkPairs, List.length_map, List.length_product, List.length_range] at this

/-- Each node but the first has a link. -/
theorem SpreadOut.le_length (h : SpreadOut argv s) {k : Nat} (hk : k ≤ s.nodes.length)
    {links : List (PrintedLink K)}
    (hlinks : ∀ p ∈ linkPairs s.links, p.1 < k → p ∈ linkPairs links) :
    k ≤ links.length + 1 := by
  have hsub : List.range' 1 (k - 1) ⊆ links.map PrintedLink.n := fun n hn => by
    obtain ⟨hpos, hlt⟩ := List.mem_range'_1.mp hn
    obtain ⟨m, -, hmem⟩ := h.joined n hpos (by omega)
    obtain ⟨l, hl, heq⟩ := List.mem_map.mp (hlinks _ hmem (show n < k by omega))
    exact List.mem_map.mpr ⟨l, hl, congrArg Prod.fst heq⟩
  have hnodup : (List.range' 1 (k - 1)).Nodup := List.nodup_range'
  have := (hnodup.subperm hsub).length_le
  rw [List.length_range', List.length_map] at this
  omega

section Plain

variable (hheader : ∀ l ∈ spreadHeader argv0 seed pyFloat argv, l.Plain)
  (hfloat : ∀ x, OneLine 317 (pyFloat x))
include hheader hfloat

/-- The lines in front are read as they are meant, if the first ones are and if numbers print as
short texts. -/
theorem plain_spreadComments (hout : SpreadOut argv s) (hnodes : s.nodes.length ≤ 10 ^ 100) :
    ∀ l ∈ spreadComments argv0 seed pyFloat argv s, l.Plain := by
  intro l hl
  rw [spreadComments, List.mem_append, List.mem_append] at hl
  rcases hl with (hl | hl) | hl
  · exact hheader l hl
  · obtain ⟨⟨node1, n⟩, hnode, rfl⟩ := List.mem_map.mp hl
    have hn : n < s.nodes.length := by
      have := List.mk_mem_zipIdx_iff_getElem?.mp (List.mem_of_mem_drop hnode)
      exact (List.getElem?_eq_some_iff.mp this).1
    refine plain_comment (OneLine.mono (((((oneLine_text (s := [' ']) (by decide)).append
      (oneLine_pyDecimal (k := 100) (by decide) (hn.trans_le hnodes))).append
        (oneLine_text (by decide))).append (hfloat _)).append (oneLine_text (by decide)) |>.append
          (hfloat _)) (by decide))
  · simp only [List.mem_cons, List.not_mem_nil, or_false] at hl
    rcases hl with rfl | rfl
    · have hcount : s.links.length < 10 ^ 201 := calc
        s.links.length ≤ s.nodes.length * s.nodes.length := hout.length_links_le
        _ ≤ 10 ^ 100 * 10 ^ 100 := Nat.mul_le_mul hnodes hnodes
        _ < 10 ^ 201 := by
          rw [← Nat.pow_add]
          exact Nat.pow_lt_pow_right (by decide) (by decide)
      exact plain_comment (((oneLine_text (by decide)).append
        (oneLine_pyDecimal (k := 201) (by decide) hcount)).mono (by decide))
    · exact plain_comment (((oneLine_text (by decide)).append (hfloat _)).mono (by decide))

/-- So are those of links, if the numbers of their nodes are node identities. -/
theorem plain_spreadComments_append (hout : SpreadOut argv s) (hnodes : s.nodes.length ≤ 10 ^ 100)
    {links : List (PrintedLink K)} (hlinks : ∀ l ∈ links, l.m < l.n ∧ l.n < 2 ^ 16) :
    ∀ l ∈ spreadComments argv0 seed pyFloat argv s ++ links.map (spreadLinkLine pyFloat),
      l.Plain := by
  intro l hl
  rcases List.mem_append.mp hl with hl | hl
  · exact plain_spreadComments hheader hfloat hout hnodes l hl
  · obtain ⟨⟨n, m, d⟩, hlink, rfl⟩ := List.mem_map.mp hl
    obtain ⟨hlt, hn⟩ := hlinks _ hlink
    have hdigits : ∀ {k}, k ≤ n → OneLine 5 (Nat.toDigits 10 k) := fun hk =>
      oneLine_toDigits (by decide) (hk.trans_lt (hn.trans (by decide)))
    constructor
    · exact ((hdigits le_rfl).append ((oneLine_text (s := ['\t']) (by decide)).append
        ((hdigits hlt.le).append ((oneLine_text (by decide)).append (hfloat d))))).mono (by decide)
    · rintro _ _ _ _ ⟨rfl, rfl, rfl, rfl⟩
      exact ⟨hn, hlt.trans hn, rfl, .comment rfl⟩

/-- If all numbers of nodes are node identities, the file is read as it is meant. -/
theorem plain_spreadLines (hout : SpreadOut argv s) (hnodes : s.nodes.length ≤ 2 ^ 16) :
    ∀ l ∈ spreadLines argv0 seed pyFloat argv s, l.Plain := by
  refine plain_spreadComments_append hheader hfloat hout (hnodes.trans ?_) fun l hl => ?_
  · exact Nat.pow_le_pow_left (by decide : 2 ≤ 10) 16 |>.trans
      (Nat.pow_le_pow_right (by decide) (by decide))
  · obtain ⟨hlt, node1, -, hget, -⟩ := (hout.mem_links l.n l.m).mp (List.mem_map_of_mem hl)
    exact ⟨hlt, (List.getElem?_eq_some_iff.mp hget).1.trans_le hnodes⟩

/-- Reading a file of more nodes stops, as the nodes with numbers that are node identities have too
many links already. -/
theorem length_nodes_le_of_topoFileRead {strtof : List Char → UInt32} {topo : Topo}
    (hout : SpreadOut argv s) (hnodes : s.nodes.length ≤ 10 ^ 100)
    (hread : topoFileRead strtof topoNew (fileText (spreadLines argv0 seed pyFloat argv s)) =
      .ok topo) : s.nodes.length ≤ 2 ^ 16 := by
  by_contra hmore
  let first := s.links.takeWhile fun l => l.n < 2 ^ 16
  have hfirst : ∀ l ∈ first, l.m < l.n ∧ l.n < 2 ^ 16 := fun l hl =>
    ⟨((hout.mem_links l.n l.m).mp (List.mem_map_of_mem (List.takeWhile_subset _ hl))).1,
      of_decide_eq_true (List.all_eq_true.mp List.all_takeWhile l hl)⟩
  have hlength : 2 ^ 16 ≤ first.length + 1 := by
    refine hout.le_length (Nat.le_of_not_le hmore) fun p hp hlt => ?_
    obtain ⟨l, hl, rfl⟩ := List.mem_map.mp hp
    refine List.mem_map_of_mem (mem_takeWhile_of_pairwise ?_ hl (decide_eq_true hlt))
    exact (List.pairwise_map.mp hout.sorted).imp fun hle hlt =>
      decide_eq_true (hle.trans_lt (of_decide_eq_true hlt))
  have hdistinct : (bothWays (linkPairs first)).Nodup := by
    refine nodup_bothWays (hout.nodup.sublist ((List.takeWhile_sublist _).map _)) fun p hp => ?_
    obtain ⟨l, hl, rfl⟩ := List.mem_map.mp hp
    exact (hfirst l hl).1
  have hfile : spreadLines argv0 seed pyFloat argv s =
      spreadComments argv0 seed pyFloat argv s ++ first.map (spreadLinkLine pyFloat) ++
        (s.links.dropWhile fun l => l.n < 2 ^ 16).map (spreadLinkLine pyFloat) := by
    rw [List.append_assoc, ← List.map_append, List.takeWhile_append_dropWhile, spreadLines]
  rw [hfile, fileText, List.flatMap_append] at hread
  have hroom := length_fileLinks_le (plain_spreadComments_append hheader hfloat hout hnodes hfirst)
    (by rwa [fileLinks_spreadComments_append]) hread
  rw [fileLinks_spreadComments_append, linkPairs, List.length_map, topoMaxentries] at hroom
  omega

end Plain

/-- Each node is at the end of a walk from the first one. -/
theorem hops_spread {strtof : List Char → UInt32} {topo : Topo} (hout : SpreadOut argv s)
    (hplain : ∀ l ∈ spreadLines argv0 seed pyFloat argv s, l.Plain)
    (hnodes : s.nodes.length ≤ 2 ^ 16)
    (hread : topoFileRead strtof topoNew (fileText (spreadLines argv0 seed pyFloat argv s)) =
      .ok topo)
    {n : Nat} (hn : n < s.nodes.length) : ∃ d ≤ n, Hops topo 0 (.ofNat n) d := by
  induction n using Nat.strongRecOn with
  | ind n ih =>
    rcases Nat.eq_zero_or_pos n with rfl | hpos
    · exact ⟨0, le_rfl, .nil⟩
    obtain ⟨m, hlt, hmem⟩ := hout.joined n hpos hn
    obtain ⟨d, hd, hwalk⟩ := ih m hlt (hlt.trans hn)
    have hnumber : (UInt16.ofNat n).toNat = n ∧ (UInt16.ofNat m).toNat = m :=
      ⟨UInt16.toNat_ofNat_of_lt' (hn.trans_le hnodes),
        UInt16.toNat_ofNat_of_lt' ((hlt.trans hn).trans_le hnodes)⟩
    have hlink : topo.Link (.ofNat m) (.ofNat n) := by
      rw [topoFileRead_link hplain hread, fileLinks_spreadLines, hnumber.1, hnumber.2]
      refine ⟨fun heq => ?_, Or.inr hmem⟩
      have := congrArg UInt16.toNat heq
      rw [hnumber.1, hnumber.2] at this
      omega
    exact ⟨d + 1, hd.trans_lt hlt, hwalk.snoc hlink⟩

/-- The simulator reads the file of a topology if it has 4500 links at most, and then two nodes are
linked if they are closer than `maxrange`. -/
theorem spread_file_read {math : PyMath K} {tape : Nat → K} {turns : Nat}
    (strtof : List Char → UInt32)
    (hrun : spreadTopo math argv tape turns = some s)
    (hheader : ∀ l ∈ spreadHeader argv0 seed pyFloat argv, l.Plain)
    (hfloat : ∀ x, OneLine 317 (pyFloat x)) (hnodes : s.nodes.length ≤ 10 ^ 100) :
    ((∃ topo, topoFileRead strtof topoNew (fileText (spreadLines argv0 seed pyFloat argv s)) =
        .ok topo) ↔ s.links.length ≤ 4500) ∧
      ∀ topo, topoFileRead strtof topoNew (fileText (spreadLines argv0 seed pyFloat argv s)) =
          .ok topo →
        ∀ a b, topo.Link a b ↔ a ≠ b ∧ ∃ node1 node2, s.nodes[a.toNat]? = some node1 ∧
          s.nodes[b.toNat]? = some node2 ∧
          planeDist2 node1 node2 < argv.maxrange * argv.maxrange := by
  have hout := spreadOut_of_spreadLoop (spreadOut_start argv) hrun
  have hlarger : ∀ p ∈ linkPairs s.links, p.2 < p.1 := fun p hp =>
    ((hout.mem_links p.1 p.2).mp hp).1
  have hfew : s.nodes.length ≤ 2 ^ 16 →
      ((∃ topo, topoFileRead strtof topoNew
        (fileText (spreadLines argv0 seed pyFloat argv s)) = .ok topo) ↔
          s.links.length ≤ 4500) := fun hfew => by
    have hdistinct : (bothWays (fileLinks (spreadLines argv0 seed pyFloat argv s))).Nodup := by
      rw [fileLinks_spreadLines]
      exact nodup_bothWays hout.nodup hlarger
    rw [exists_topoFileRead_iff (plain_spreadLines hheader hfloat hout hfew) hdistinct,
      fileLinks_spreadLines, linkPairs, List.length_map, topoMaxentries]
    omega
  constructor
  · constructor
    · rintro ⟨topo, hread⟩
      exact (hfew (length_nodes_le_of_topoFileRead hheader hfloat hout hnodes hread)).mp
        ⟨topo, hread⟩
    · intro hle
      have hlength := hout.le_length le_rfl fun p hp _ => hp
      exact (hfew (by omega)).mpr hle
  · intro topo hread a b
    have hplain := plain_spreadLines hheader hfloat hout
      (length_nodes_le_of_topoFileRead hheader hfloat hout hnodes hread)
    rw [topoFileRead_link hplain hread, fileLinks_spreadLines, hout.mem_links, hout.mem_links]
    refine and_congr_right fun hne => ?_
    have hne' : a.toNat ≠ b.toNat := fun heq => hne (UInt16.toNat_inj.mp heq)
    constructor
    · rintro (⟨-, p, q, hp, hq, hreach⟩ | ⟨-, p, q, hp, hq, hreach⟩)
      · exact ⟨p, q, hp, hq, hreach⟩
      · exact ⟨q, p, hq, hp, by rwa [planeDist2_comm]⟩
    · rintro ⟨p, q, hp, hq, hreach⟩
      rcases Nat.lt_or_gt_of_ne hne' with hlt | hlt
      · exact Or.inr ⟨hlt, q, p, hq, hp, by rwa [planeDist2_comm]⟩
      · exact Or.inl ⟨hlt, p, q, hp, hq, hreach⟩

/-- In a simulation of the topology with a root, once all that is to come is due more than 1.500999
seconds and 4.2 seconds for each smaller number after the start, or nothing is to come, a node is
awake, if `Eschaton` is later than that. -/
theorem spread_wakes {F : Type} (ops : FloatOps F) {math : PyMath K} {draws : Nat → K} {turns : Nat}
    {strtof : List Char → UInt32} {args : SimArgs} {tape : Nat → Fin randRange}
    {uninit : Nat → List UInt8} {s₀ sim : Sim} {events : List QueueEvent} {n : Nat}
    (hrun : spreadTopo math argv draws turns = some s)
    (hheader : ∀ l ∈ spreadHeader argv0 seed pyFloat argv, l.Plain)
    (hfloat : ∀ x, OneLine 317 (pyFloat x)) (hnodes : s.nodes.length ≤ 10 ^ 100)
    (hlinks : args.links = fileEntries strtof (fileText (spreadLines argv0 seed pyFloat argv s)))
    (hroot : 'R' ∈ args.nodeOpts) (hstart : simStart args tape uninit = .ok s₀)
    (hsim : Run (SimStep ops) s₀ events sim) (hn : n < s.nodes.length)
    (hroom : 4200000 * n + 1500999 < (simEschaton args.timeout).toNat)
    (hlate : ∀ e ∈ sim.world.pending, 4200000 * n + 1500999 < e.vtime.toNat) :
    ∃ node, sim.nodes[n]? = some node ∧ node.status ≠ .asleep ∧ node.status ≠ .waking := by
  have hout := spreadOut_of_spreadLoop (spreadOut_start argv) hrun
  obtain ⟨topo, htopo, -⟩ := soundSim_start hstart
  have hread : topoFileRead strtof topoNew
      (fileText (spreadLines argv0 seed pyFloat argv s)) = .ok topo := by
    rw [topoFileRead_eq, ← hlinks]
    exact htopo
  have hfew := length_nodes_le_of_topoFileRead hheader hfloat hout hnodes hread
  obtain ⟨d, hd, hhops⟩ :=
    hops_spread hout (plain_spreadLines hheader hfloat hout hfew) hfew hread hn
  have hawake := WakeWave.awake hstart htopo hsim (Nat.zero_le _) (Or.inl ⟨hroot, rfl⟩) hhops
    (by omega) hroom hlate
  rwa [UInt16.toNat_ofNat_of_lt' (hn.trans_le hfew)] at hawake

end Spread

/-! ## Two nodes -/

/-- The arguments of a run that places two nodes. -/
def twoSpread : SpreadArgv ℚ where
  argv1 := 2
  argv2 := some 1
  argv3 := some 10

/-- The square root of 50 to six places is the only one that the run takes. -/
def sixPlaces : PyMath ℚ where
  pi := 3141593 / 1000000
  sqrt _ := 7071068 / 1000000
  sin _ := 0
  cos _ := 1
  acos _ := 0

/-- `"%f" % x` for the numbers that the run prints. -/
def sixPlacesText (x : ℚ) : List Char :=
  if x = 1 then "1.000000".toList
  else if x = 10 then "10.000000".toList
  else if x = 1005 then "1005.000000".toList
  else "7.071068".toList

theorem oneLine_sixPlacesText (x : ℚ) : OneLine 317 (sixPlacesText x) := by
  unfold sixPlacesText
  split_ifs
  all_goals exact (oneLine_text (by decide)).mono (by decide)

theorem plain_header_two : ∀ l ∈ spreadHeader "spread_topo.py".toList "None".toList sixPlacesText
    twoSpread, l.Plain := by
  have hcount : twoSpread.nnodes = (2 : Nat) := rfl
  intro l hl
  simp only [spreadHeader, List.mem_cons, List.not_mem_nil, or_false] at hl
  rcases hl with rfl | rfl | rfl | rfl | rfl | rfl
  · exact plain_comment (((oneLine_text (by decide)).append (oneLine_text (by decide))).mono
      (by decide))
  · exact plain_comment ((oneLine_text (by decide)).mono (by decide))
  · rw [hcount]
    exact plain_comment (((oneLine_text (by decide)).append
      (oneLine_pyDecimal (k := 1) (by decide) (by decide))).mono (by decide))
  · exact plain_comment (((oneLine_text (by decide)).append (oneLine_sixPlacesText _)).mono
      (by decide))
  · exact plain_comment (((oneLine_text (by decide)).append (oneLine_sixPlacesText _)).mono
      (by decide))
  · exact plain_comment (((oneLine_text (by decide)).append (oneLine_text (by decide))).mono
      (by decide))

/-- The second node is in the corner of what is tried. -/
theorem exists_spreadTopo_two :
    ∃ s, spreadTopo sixPlaces twoSpread (fun _ => 3 / 4) 2 = some s ∧ s.nodes.length = 2 ∧
      linkPairs s.links = [(1, 0)] := by
  have hrun : (spreadTopo sixPlaces twoSpread (fun _ => 3 / 4) 2).map
      (fun s => (s.nodes.length, linkPairs s.links)) = some (2, [(1, 0)]) := by decide +kernel
  obtain ⟨s, hs, heq⟩ := Option.map_eq_some_iff.mp hrun
  exact ⟨s, hs, congrArg Prod.fst heq, congrArg Prod.snd heq⟩

theorem spread_file_read_two :
    ∃ s topo, spreadTopo sixPlaces twoSpread (fun _ => 3 / 4) 2 = some s ∧
      topoFileRead (fun _ => floatOne) topoNew (fileText (spreadLines "spread_topo.py".toList
        "None".toList sixPlacesText twoSpread s)) = .ok topo ∧ topo.Link 0 1 := by
  obtain ⟨s, hrun, hlength, hlinks⟩ := exists_spreadTopo_two
  obtain ⟨hreads, htable⟩ := spread_file_read (fun _ => floatOne) hrun plain_header_two
    oneLine_sixPlacesText (by rw [hlength]; decide)
  have hfew : s.links.length ≤ 4500 := by
    rw [← List.length_map (f := fun l : PrintedLink ℚ => (l.n, l.m))]
    exact (congrArg List.length hlinks).trans_le (by decide)
  obtain ⟨topo, hread⟩ := hreads.mpr hfew
  refine ⟨s, topo, hrun, hread, (htable topo hread 0 1).mpr ⟨by decide, ?_⟩⟩
  have hmem : (1, 0) ∈ linkPairs s.links := hlinks ▸ List.mem_singleton_self _
  obtain ⟨-, p, q, hp, hq, hreach⟩ :=
    ((spreadOut_of_spreadLoop (spreadOut_start _) hrun).mem_links 1 0).mp hmem
  exact ⟨q, p, hq, hp, by rwa [planeDist2_comm]⟩

/-- A simulation of two nodes for six seconds. -/
def twoSpreadSim : SimArgs where
  links := linkEntries (1, 0)
  timeout := some 6
  dims := some 1
  nodeOpts := ['R']

theorem spread_wakes_two :
    ∃ s, SimReachable integerOps twoSpreadSim (fun _ => 2147483530) (fun _ => []) s ∧
      s.world.pending = 0 ∧
      ∃ node, s.nodes[1]? = some node ∧ node.status ≠ .asleep ∧ node.status ≠ .waking := by
  obtain ⟨spread, hspread, hlength, hpairs⟩ := exists_spreadTopo_two
  have hplain := plain_spreadLines plain_header_two oneLine_sixPlacesText
    (spreadOut_of_spreadLoop (spreadOut_start _) hspread) (by rw [hlength]; decide)
  have hlinks : twoSpreadSim.links = fileEntries (fun _ => floatOne) (fileText (spreadLines
      "spread_topo.py".toList "None".toList sixPlacesText twoSpread spread)) := by
    rw [fileEntries_fileText _ hplain, fileLinks_spreadLines, hpairs]
    rfl
  -- each random move is by 0, so that both nodes stay where they are
  have hrun : (do
      let s ← simStart twoSpreadSim (fun _ => 2147483530) fun _ => []
      let r ← simRun integerOps (fun _ _ => true) 40 s
      return simEnds integerOps r.2) = (Except.ok true : Except Abort _) := by decide +kernel
  obtain ⟨s₀, hstart, hrun⟩ := bind_eq_ok hrun
  obtain ⟨⟨events, s⟩, hevents, hends⟩ := bind_eq_ok hrun
  have hsteps : Run (SimStep integerOps) s₀ events s :=
    (simRun_run integerOps hevents).mono fun _ _ _ h => h.1
  have hreach : SimReachable integerOps twoSpreadSim (fun _ => 2147483530) (fun _ => []) s :=
    ⟨s₀, events, hstart, hsteps⟩
  have hzero := pending_of_simStep_none hreach.due (simStep_of_simEnds (Except.ok.inj hends))
  have hnone : ∀ e ∈ s.world.pending, 4200000 * 1 + 1500999 < e.vtime.toNat := by
    rw [hzero]
    exact fun e he => absurd he (Multiset.notMem_zero e)
  exact ⟨s, hreach, hzero, spread_wakes integerOps hspread plain_header_two oneLine_sixPlacesText
    (by rw [hlength]; decide) hlinks (by decide) hstart hsteps (by rw [hlength]; decide)
    (by decide) hnone⟩

end OldRadio.Tools
