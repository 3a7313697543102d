import Mathlib.Data.Nat.Dist
import OldRadio.Library.Lists
import OldRadio.Second.TopoFile
import OldRadio.Second.WakeWave

/-!
# Simulating squares

`square_topo.py` links each node of a square to its neighbours. The table of the
simulator has room for squares of up to 47 rows, and there the first node wakes
each other one within its distance along the rows and columns.
-/

namespace OldRadio.Tools

open Library Second

/-- `size`. -/
def squareSize (argv1 : Option Int) : Int := argv1.getD 10

/-- The body of the inner loop. -/
def squarePlace (size y x : Nat) : List FileLine :=
  let n := y * size + x
  (if y ≠ 0 then [.link n (n - size) ' ' []] else []) ++
    if x ≠ 0 then [.link n (n - 1) ' ' []] else []

/-- All that is printed. The loops are empty if `size` is negative. -/
def squareLines (argv1 : Option Int) : List FileLine :=
  let size := (squareSize argv1).toNat
  (List.range size).flatMap fun y => (List.range size).flatMap fun x => squarePlace size y x

/-- The lines of a node. -/
def squareNode (size n : Nat) : List FileLine := squarePlace size (n / size) (n % size)

/-- The nodes have their lines one after another. -/
theorem squareLines_eq {argv1 : Option Int} {size : Nat} (hsize : (squareSize argv1).toNat = size) :
    squareLines argv1 = (List.range (size * size)).flatMap (squareNode size) := by
  rw [squareLines, hsize, ← flatMap_range_mul]
  refine List.flatMap_congr fun y _ => List.flatMap_congr fun x hx => ?_
  have hlt := List.mem_range.mp hx
  rw [squareNode, Nat.mul_comm, Nat.mul_add_div (Nat.zero_lt_of_lt hlt), Nat.div_eq_of_lt hlt,
    Nat.add_zero, Nat.mul_add_mod, Nat.mod_eq_of_lt hlt]

/-- A node is linked to the one above it and to the one in front of it. -/
theorem ends_squareNode (size n : Nat) :
    (squareNode size n).flatMap FileLine.ends =
      (if n / size ≠ 0 then [(n, n - size)] else []) ++
        if n % size ≠ 0 then [(n, n - 1)] else [] := by
  rw [squareNode, squarePlace, Nat.div_add_mod']
  split_ifs
  all_goals rfl

theorem mem_ends_squareNode {size n a b : Nat} :
    (a, b) ∈ (squareNode size n).flatMap FileLine.ends ↔
      a = n ∧ (n / size ≠ 0 ∧ b = n - size ∨ n % size ≠ 0 ∧ b = n - 1) := by
  rw [ends_squareNode]
  by_cases hy : n / size = 0
  all_goals
    by_cases hx : n % size = 0
    all_goals simp [hy, hx, and_or_left]

/-! ## Neighbours -/

/-- The distance in a square, along rows and columns. -/
def squareDist (size a b : Nat) : Nat :=
  Nat.dist (a % size) (b % size) + Nat.dist (a / size) (b / size)

theorem squareDist_comm (size a b : Nat) : squareDist size a b = squareDist size b a := by
  rw [squareDist, squareDist, Nat.dist_comm (a % size), Nat.dist_comm (a / size)]

/-- The nodes above and in front are the neighbours with smaller numbers. -/
theorem linked_iff {size a b : Nat} (hpos : 0 < size) :
    (a / size ≠ 0 ∧ b = a - size ∨ a % size ≠ 0 ∧ b = a - 1) ↔
      b < a ∧ squareDist size a b = 1 := by
  have ha := Nat.div_add_mod a size
  have hax := Nat.mod_lt a hpos
  have hbx := Nat.mod_lt b hpos
  rw [squareDist, Nat.dist, Nat.dist]
  constructor
  · rintro (⟨hy, rfl⟩ | ⟨hx, rfl⟩)
    · obtain ⟨y, hy⟩ := Nat.exists_eq_succ_of_ne_zero hy
      rw [hy, Nat.mul_succ] at ha
      obtain ⟨hdiv, hmod⟩ : (a - size) / size = y ∧ (a - size) % size = a % size :=
        (Nat.div_mod_unique hpos).mpr ⟨by omega, hax⟩
      rw [hdiv, hmod, hy]
      omega
    · obtain ⟨hdiv, hmod⟩ : (a - 1) / size = a / size ∧ (a - 1) % size = a % size - 1 :=
        (Nat.div_mod_unique hpos).mpr ⟨by omega, by omega⟩
      rw [hdiv, hmod]
      omega
  · rintro ⟨hlt, hdist⟩
    have hb := Nat.div_add_mod b size
    -- one coordinate is the same, and the other differs by one
    have hcases : a % size = b % size ∧ (a / size = b / size + 1 ∨ b / size = a / size + 1) ∨
        a / size = b / size ∧ (a % size = b % size + 1 ∨ b % size = a % size + 1) := by omega
    rcases hcases with ⟨hx, hy | hy⟩ | ⟨hy, hx | hx⟩
    · rw [hy, Nat.mul_succ] at ha
      exact Or.inl ⟨hy ▸ Nat.succ_ne_zero _, by omega⟩
    · rw [hy, Nat.mul_succ] at hb
      omega
    · rw [hy] at ha
      exact Or.inr ⟨by omega, by omega⟩
    · rw [hy] at ha
      omega

/-! ## The file -/

/-- The links of the first nodes. -/
def squareLinks (size count : Nat) : List (Nat × Nat) :=
  fileLinks ((List.range count).flatMap (squareNode size))

theorem squareLinks_eq (size count : Nat) :
    squareLinks size count =
      (List.range count).flatMap fun n => (squareNode size n).flatMap FileLine.ends :=
  List.flatMap_assoc ..

theorem squareLinks_succ (size count : Nat) :
    squareLinks size (count + 1) =
      squareLinks size count ++ (squareNode size count).flatMap FileLine.ends := by
  rw [squareLinks_eq, squareLinks_eq, List.range_succ, List.flatMap_append, List.flatMap_singleton]

/-- The links of the first nodes are those to neighbours with smaller numbers. -/
theorem mem_squareLinks {size count a b : Nat} (hpos : 0 < size) :
    (a, b) ∈ squareLinks size count ↔ a < count ∧ b < a ∧ squareDist size a b = 1 := by
  rw [squareLinks_eq, List.mem_flatMap, ← linked_iff hpos]
  constructor
  · rintro ⟨n, hn, hmem⟩
    obtain ⟨rfl, hlinked⟩ := mem_ends_squareNode.mp hmem
    exact ⟨List.mem_range.mp hn, hlinked⟩
  · rintro ⟨ha, hlinked⟩
    exact ⟨a, List.mem_range.mpr ha, mem_ends_squareNode.mpr ⟨rfl, hlinked⟩⟩

/-- No link is there twice. -/
theorem nodup_squareLinks (size count : Nat) : (squareLinks size count).Nodup := by
  induction count with
  | zero => exact List.nodup_nil
  | succ count ih =>
    rw [squareLinks_succ, List.nodup_append']
    refine ⟨ih, ?_, fun p hold hnew => ?_⟩
    · rw [ends_squareNode]
      split_ifs with hy hx hx
      · rw [List.singleton_append, List.nodup_cons, List.mem_singleton, Prod.mk.injEq]
        refine ⟨fun h => ?_, List.nodup_singleton _⟩
        have hlt : size ≤ count := by
          by_contra hlt
          exact hy (Nat.div_eq_of_lt (Nat.lt_of_not_le hlt))
        have hone : size ≠ 1 := fun hone => hx (by rw [hone, Nat.mod_one])
        have hzero : size ≠ 0 := fun hzero => hy (by rw [hzero, Nat.div_zero])
        omega
      · exact List.nodup_singleton _
      · exact List.nodup_singleton _
      · exact List.nodup_nil
    · rw [squareLinks_eq] at hold
      obtain ⟨n, hn, hmem⟩ := List.mem_flatMap.mp hold
      have hlast := (mem_ends_squareNode.mp hnew).1
      have hbefore := (mem_ends_squareNode.mp hmem).1
      have := List.mem_range.mp hn
      omega

theorem lt_of_mem_squareLinks {size count : Nat} (hpos : 0 < size) {p : Nat × Nat}
    (h : p ∈ squareLinks size count) : p.2 < p.1 :=
  ((mem_squareLinks hpos).mp h).2.1

/-- Each node but the first has a link. -/
theorem le_length_squareLinks (size count : Nat) :
    count ≤ (squareLinks size count).length + 1 := by
  induction count with
  | zero => exact Nat.zero_le _
  | succ count ih =>
    rw [squareLinks_succ, List.length_append, ends_squareNode]
    rcases Nat.eq_zero_or_pos count with rfl | hpos
    · omega
    · have hn := Nat.div_add_mod count size
      have hlink : count / size ≠ 0 ∨ count % size ≠ 0 := by
        by_contra hnone
        rw [not_or, not_not, not_not] at hnone
        rw [hnone.1, hnone.2] at hn
        omega
      rcases hlink with hy | hx
      · rw [if_pos hy, List.length_append, List.length_singleton]
        omega
      · rw [if_pos hx, List.length_append, List.length_singleton]
        omega

/-- A sum in which the first place differs. -/
theorem sum_range_first (k c n : Nat) :
    ((List.range n).map fun i => k * (if i ≠ 0 then 1 else 0) + c).sum = k * (n - 1) + n * c := by
  induction n with
  | zero => rw [Nat.zero_mul]; rfl
  | succ n ih =>
    rw [List.range_succ, List.map_append, List.sum_append, ih, List.map_singleton,
      List.sum_singleton]
    rcases Nat.eq_zero_or_pos n with rfl | hpos
    · simp
    · rw [if_pos (by omega), Nat.mul_one, Nat.add_sub_cancel, Nat.succ_mul]
      obtain ⟨n, rfl⟩ := Nat.exists_eq_add_of_le' hpos
      rw [Nat.add_sub_cancel, Nat.mul_succ]
      omega

/-- The links of a whole square: each node but those in the first row has one up, and each but those
in the first column one to the left. -/
theorem length_squareLinks (size : Nat) :
    (squareLinks size (size * size)).length = 2 * (size * (size - 1)) := by
  have hplace : ∀ n, ((squareNode size n).flatMap FileLine.ends).length =
      1 * (if n % size ≠ 0 then 1 else 0) + if n / size ≠ 0 then 1 else 0 := fun n => by
    rw [ends_squareNode]
    split_ifs
    all_goals rfl
  have hrow : ∀ y, ((List.range size).flatMap fun x =>
      (squareNode size (y * size + x)).flatMap FileLine.ends).length =
        size * (if y ≠ 0 then 1 else 0) + (size - 1) := fun y => by
    rw [List.length_flatMap, Nat.add_comm, ← Nat.one_mul (size - 1), ← sum_range_first]
    refine congrArg List.sum (List.map_congr_left fun x hx => ?_)
    have hlt := List.mem_range.mp hx
    rw [hplace, Nat.mul_comm y, Nat.mul_add_div (Nat.zero_lt_of_lt hlt), Nat.div_eq_of_lt hlt,
      Nat.add_zero, Nat.mul_add_mod, Nat.mod_eq_of_lt hlt]
  rw [squareLinks_eq, ← flatMap_range_mul, List.length_flatMap,
    List.map_congr_left fun y _ => hrow y, sum_range_first]
  omega

/-- The file is read as it is meant, as far as the numbers of nodes are node identities. -/
theorem plain_squareNodes {size count : Nat} (hcount : count ≤ 2 ^ 16) :
    ∀ l ∈ (List.range count).flatMap (squareNode size), l.Plain := by
  intro l hl
  obtain ⟨n, hn, hl⟩ := List.mem_flatMap.mp hl
  have hlt := List.mem_range.mp hn
  have hlink : ∀ m ≤ n, (FileLine.link n m ' ' []).Plain := fun m hm => by
    have hdigits : ∀ {k}, k ≤ n → OneLine 5 (Nat.toDigits 10 k) := fun hk =>
      oneLine_toDigits (by decide) (by omega)
    constructor
    · exact ((hdigits le_rfl).append ((oneLine_text (s := [' ']) (by decide)).append
        ((hdigits hm).append (oneLine_text (by decide))))).mono (by decide)
    · rintro _ _ _ _ ⟨rfl, rfl, rfl, rfl⟩
      exact ⟨by omega, by omega, rfl, .nothing⟩
  rw [squareNode, squarePlace, Nat.div_add_mod', List.mem_append] at hl
  rcases hl with hl | hl
  · split_ifs at hl
    · exact List.mem_singleton.mp hl ▸ hlink _ (Nat.sub_le ..)
    · cases hl
  · split_ifs at hl
    · exact List.mem_singleton.mp hl ▸ hlink _ (Nat.sub_le ..)
    · cases hl

/-- Links of a square are not repeated in the other direction. -/
theorem nodup_bothWays_squareLinks {size : Nat} (hpos : 0 < size) (count : Nat) :
    (bothWays (squareLinks size count)).Nodup :=
  nodup_bothWays (nodup_squareLinks size count) fun _ => lt_of_mem_squareLinks hpos

/-- Reading a square of more rows than there is room for stops. -/
theorem size_le_of_topoFileRead {strtof : List Char → UInt32} {size : Nat} {topo : Topo}
    (h : topoFileRead strtof topoNew
      (fileText ((List.range (size * size)).flatMap (squareNode size))) = .ok topo) :
    size ≤ 47 := by
  by_contra hmore
  -- the nodes with numbers that are node identities have too many links already
  obtain ⟨count, rest, hcount, hrest, hroom⟩ : ∃ count rest, count ≤ 2 ^ 16 ∧
      size * size = count + rest ∧ 4500 < (squareLinks size count).length := by
    by_cases hfew : size * size ≤ 2 ^ 16
    · refine ⟨size * size, 0, hfew, rfl, ?_⟩
      have : 48 * 47 ≤ size * (size - 1) := Nat.mul_le_mul (by omega) (by omega)
      rw [length_squareLinks]
      omega
    · obtain ⟨rest, hrest⟩ := Nat.exists_eq_add_of_le (Nat.le_of_not_le hfew)
      have := le_length_squareLinks size (2 ^ 16)
      exact ⟨2 ^ 16, rest, le_rfl, hrest, by omega⟩
  rw [hrest, List.range_add, List.flatMap_append, fileText, List.flatMap_append] at h
  have hle := length_fileLinks_le (plain_squareNodes hcount)
    (nodup_bothWays_squareLinks (by omega) count) h
  rw [topoMaxentries, ← squareLinks] at hle
  omega

section Read

variable {strtof : List Char → UInt32} {argv1 : Option Int} {size : Nat}

theorem plain_squareLines (hle : size ≤ 47) :
    ∀ l ∈ (List.range (size * size)).flatMap (squareNode size), l.Plain :=
  plain_squareNodes ((Nat.mul_le_mul hle hle).trans (by decide))

/-- There is room for a square of 47 rows. -/
theorem exists_topoFileRead_square (hpos : 0 < size) (hle : size ≤ 47) :
    ∃ topo, topoFileRead strtof topoNew
      (fileText ((List.range (size * size)).flatMap (squareNode size))) = .ok topo := by
  refine (exists_topoFileRead_iff (plain_squareLines hle)
    (nodup_bothWays_squareLinks hpos _)).mpr ?_
  have : size * (size - 1) ≤ 47 * 46 := Nat.mul_le_mul hle (by omega)
  rw [← squareLinks, length_squareLinks, topoMaxentries]
  omega

/-- The links that are read are those between neighbours. -/
theorem link_square (hsize : (squareSize argv1).toNat = size) {topo : Topo}
    (hread : topoFileRead strtof topoNew (fileText (squareLines argv1)) = .ok topo) (a b : NodeId) :
    topo.Link a b ↔
      a.toNat < size * size ∧ b.toNat < size * size ∧ squareDist size a.toNat b.toNat = 1 := by
  rw [squareLines_eq hsize] at hread
  rw [topoFileRead_link (plain_squareLines (size_le_of_topoFileRead hread)) hread, ← squareLinks]
  rcases Nat.eq_zero_or_pos size with rfl | hpos
  · refine iff_of_false (fun h => ?_) fun h => Nat.not_lt_zero _ h.1
    exact h.2.elim List.not_mem_nil List.not_mem_nil
  rw [mem_squareLinks hpos, mem_squareLinks hpos, squareDist_comm size b.toNat]
  constructor
  · rintro ⟨-, ⟨ha, hlt, hdist⟩ | ⟨hb, hlt, hdist⟩⟩
    · exact ⟨ha, hlt.trans ha, hdist⟩
    · exact ⟨hlt.trans hb, hb, hdist⟩
  · rintro ⟨ha, hb, hdist⟩
    have hne : a.toNat ≠ b.toNat := fun heq => by
      rw [heq, squareDist, Nat.dist_self, Nat.dist_self] at hdist
      cases hdist
    refine ⟨fun heq => hne (congrArg _ heq), ?_⟩
    rcases Nat.lt_or_gt_of_ne hne with hlt | hlt
    · exact Or.inr ⟨hb, hlt, hdist⟩
    · exact Or.inl ⟨ha, hlt, hdist⟩

/-- The simulator reads the file of a square if it has 47 rows at most, and then two nodes are
linked if they are neighbours. -/
theorem square_file_read (hsize : (squareSize argv1).toNat = size) :
    ((∃ topo, topoFileRead strtof topoNew (fileText (squareLines argv1)) = .ok topo) ↔
        size ≤ 47) ∧
      ∀ topo, topoFileRead strtof topoNew (fileText (squareLines argv1)) = .ok topo →
        ∀ a b, topo.Link a b ↔ a.toNat < size * size ∧ b.toNat < size * size ∧
          squareDist size a.toNat b.toNat = 1 := by
  refine ⟨⟨fun ⟨topo, h⟩ => ?_, fun hle => ?_⟩, fun topo hread a b => link_square hsize hread a b⟩
  · rw [squareLines_eq hsize] at h
    exact size_le_of_topoFileRead h
  · rw [squareLines_eq hsize]
    rcases Nat.eq_zero_or_pos size with rfl | hpos
    · exact ⟨topoNew, rfl⟩
    · exact exists_topoFileRead_square hpos hle

end Read

theorem square_file_read_twoRows :
    ∃ topo, topoFileRead (fun _ => floatOne) topoNew (fileText (squareLines (some 2))) = .ok topo ∧
      topo.Link 0 1 ∧ ¬ topo.Link 0 3 := by
  obtain ⟨hreads, hlinks⟩ :=
    @square_file_read (fun _ => floatOne) (some 2) 2 rfl
  obtain ⟨topo, hread⟩ := hreads.mpr (by decide)
  exact ⟨topo, hread, (hlinks topo hread 0 1).mpr (by decide), fun h =>
    absurd ((hlinks topo hread 0 3).mp h).2.2 (by decide)⟩

/-- A node is at the end of a walk from the first one along the rows and columns. -/
theorem hops_square {topo : Topo} {size : Nat} (hsize : size ≤ 47)
    (hlink : ∀ a b, topo.Link a b ↔ a.toNat < size * size ∧ b.toNat < size * size ∧
      squareDist size a.toNat b.toNat = 1) {n : Nat} (hn : n < size * size) :
    Hops topo 0 (.ofNat n) (n % size + n / size) := by
  have hpos : 0 < size := Nat.pos_of_ne_zero fun hzero => by
    rw [hzero] at hn
    cases hn
  have hsmall : size * size ≤ 47 * 47 := Nat.mul_le_mul hsize hsize
  induction n using Nat.strongRecOn with
  | ind n ih =>
    have hdiv := Nat.div_add_mod n size
    have hstep : ∀ m, (n / size ≠ 0 ∧ m = n - size ∨ n % size ≠ 0 ∧ m = n - 1) →
        m % size + m / size + 1 = n % size + n / size →
          Hops topo 0 (.ofNat n) (n % size + n / size) := fun m hlinked hnear => by
      obtain ⟨hlt, hdist⟩ := (linked_iff hpos).mp hlinked
      rw [← hnear]
      refine (ih m hlt (hlt.trans hn)).snoc ((hlink _ _).mpr ?_)
      rw [UInt16.toNat_ofNat_of_lt' (show n < 2 ^ 16 by omega),
        UInt16.toNat_ofNat_of_lt' (show m < 2 ^ 16 by omega), squareDist_comm]
      exact ⟨hlt.trans hn, hn, hdist⟩
    have hmod := Nat.mod_lt n hpos
    rcases Nat.eq_zero_or_pos (n / size) with hy | hy
    · rcases Nat.eq_zero_or_pos (n % size) with hx | hx
      · rw [hy, hx] at hdiv
        obtain rfl : 0 = n := hdiv
        rw [Nat.zero_mod, Nat.zero_div]
        exact .nil
      · obtain ⟨hdiv', hmod'⟩ : (n - 1) / size = n / size ∧ (n - 1) % size = n % size - 1 :=
          (Nat.div_mod_unique hpos).mpr ⟨by omega, by omega⟩
        exact hstep (n - 1) (Or.inr ⟨hx.ne', rfl⟩) (by omega)
    · obtain ⟨y, hy'⟩ := Nat.exists_eq_succ_of_ne_zero hy.ne'
      rw [hy', Nat.mul_succ] at hdiv
      obtain ⟨hdiv', hmod'⟩ : (n - size) / size = y ∧ (n - size) % size = n % size :=
        (Nat.div_mod_unique hpos).mpr ⟨by omega, hmod⟩
      exact hstep (n - size) (Or.inl ⟨hy.ne', rfl⟩) (by omega)

/-- In a simulation of a square with a root, once all that is to come is due more than 1.500999
seconds and 4.2 seconds for each row and column behind the first ones after the start, or nothing is
to come, a node is awake, if `Eschaton` is later than that. -/
theorem square_wakes {F : Type} (ops : FloatOps F) {strtof : List Char → UInt32} {args : SimArgs}
    {tape : Nat → Fin randRange} {uninit : Nat → List UInt8} {s₀ s : Sim}
    {events : List QueueEvent} {argv1 : Option Int} {size n : Nat}
    (hsize : (squareSize argv1).toNat = size)
    (hlinks : args.links = fileEntries strtof (fileText (squareLines argv1)))
    (hroot : 'R' ∈ args.nodeOpts) (hstart : simStart args tape uninit = .ok s₀)
    (hsim : Run (SimStep ops) s₀ events s) (hn : n < size * size)
    (hroom : 4200000 * (n % size + n / size) + 1500999 < (simEschaton args.timeout).toNat)
    (hlate : ∀ e ∈ s.world.pending, 4200000 * (n % size + n / size) + 1500999 < e.vtime.toNat) :
    ∃ node, s.nodes[n]? = some node ∧ node.status ≠ .asleep ∧ node.status ≠ .waking := by
  obtain ⟨topo, htopo, -⟩ := soundSim_start hstart
  have hread : topoFileRead strtof topoNew (fileText (squareLines argv1)) = .ok topo := by
    rw [topoFileRead_eq, ← hlinks]
    exact htopo
  have hrows : size ≤ 47 := by
    rw [squareLines_eq hsize] at hread
    exact size_le_of_topoFileRead hread
  have hsmall : size * size ≤ 47 * 47 := Nat.mul_le_mul hrows hrows
  have hawake := WakeWave.awake hstart htopo hsim (Nat.zero_le _) (Or.inl ⟨hroot, rfl⟩)
    (hops_square hrows (link_square hsize hread) hn) le_rfl hroom hlate
  rwa [UInt16.toNat_ofNat_of_lt' (show n < 2 ^ 16 by omega)] at hawake

/-- Two rows and a root, for six seconds. -/
def twoRows : SimArgs where
  links := (squareLinks 2 4).flatMap linkEntries
  timeout := some 6
  dims := some 1
  nodeOpts := ['R']

/-- The computations with energies rounded down to multiples of 16777216. -/
def coarseOps : FloatOps Nat where
  zero := 0
  attract energy dist2 := energy + dist2.toNat / 16777216
  repel energy dist2 := energy + 8000000 / (Nat.sqrt dist2.toNat + 1) / 16777216
  isZero energy := energy == 0
  le := Nat.ble
  moved := integerOps.moved

/-- The root's neighbour in the first row is woken. -/
theorem square_wakes_twoRows :
    ∃ s, SimReachable coarseOps twoRows (fun _ => 2147483530) (fun _ => []) s ∧
      s.world.pending = 0 ∧
      ∃ node, s.nodes[1]? = some node ∧ node.status ≠ .asleep ∧ node.status ≠ .waking := by
  have hlinks : twoRows.links =
      fileEntries (fun _ => floatOne) (fileText (squareLines (some 2))) := by
    have hsize : (squareSize (some 2)).toNat = 2 := rfl
    rw [squareLines_eq hsize, fileEntries_fileText _ (plain_squareLines (by decide))]
    rfl
  -- each random move is by 0, so that all nodes stay where they are
  have hrun : (do
      let s ← simStart twoRows (fun _ => 2147483530) fun _ => []
      let r ← simRun coarseOps (fun _ _ => true) 95 s
      return simEnds coarseOps r.2) = (Except.ok true : Except Abort _) := by decide +kernel
  obtain ⟨s₀, hstart, hrun⟩ := bind_eq_ok hrun
  obtain ⟨⟨events, s⟩, hevents, hends⟩ := bind_eq_ok hrun
  have hsteps : Run (SimStep coarseOps) s₀ events s :=
    (simRun_run coarseOps hevents).mono fun _ _ _ h => h.1
  have hreach : SimReachable coarseOps twoRows (fun _ => 2147483530) (fun _ => []) s :=
    ⟨s₀, events, hstart, hsteps⟩
  have hzero := pending_of_simStep_none hreach.due (simStep_of_simEnds (Except.ok.inj hends))
  have hnone : ∀ e ∈ s.world.pending, 4200000 * (1 % 2 + 1 / 2) + 1500999 < e.vtime.toNat := by
    rw [hzero]
    exact fun e he => absurd he (Multiset.notMem_zero e)
  exact ⟨s, hreach, hzero, square_wakes coarseOps rfl hlinks (by decide) hstart hsteps (by decide)
    (by decide) hnone⟩

end OldRadio.Tools
