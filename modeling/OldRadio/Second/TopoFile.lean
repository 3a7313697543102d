import Mathlib.Data.List.TakeWhile
import OldRadio.Second.TopoLinks

/-!
# Topology files

`topo_file_read`: every line that `fgets` reads is scanned for the numbers of
two nodes and for up to two probabilities, one for each direction of the link;
what is missing is `1.0`. The text of a number is split off here, and what it
is as a `float` is a parameter, so a probability is its bits. The table is the
one of the entries of the file, and the entries of a file of links and comments
are the links, in both directions.
-/

namespace OldRadio.Second

/-! ## Reading a line -/

/-- The loop of `fgets`, with room for a number of characters: what it reads, and what is left. -/
def fgetsLoop : Nat → List Char → List Char × List Char
  | 0, text => ([], text)
  | _ + 1, [] => ([], [])
  | room + 1, c :: text =>
    if c = '\n' then ([c], text)
    else
      let (s, rest) := fgetsLoop room text
      (c :: s, rest)

/-- `fgets(s, size, fp)`; nothing at the end of the file. -/
def fgets (size : Nat) (text : List Char) : Option (List Char × List Char) :=
  if text = [] then none else some (fgetsLoop (size - 1) text)

/-- The characters of a buffer up to the first zero. -/
def cString (s : List Char) : List Char := s.takeWhile fun c => c.toNat ≠ 0

/-! ## Scanning a line -/

/-- `isspace`. -/
def isspace (c : Char) : Bool := c == ' ' || (decide (9 ≤ c.toNat) && decide (c.toNat ≤ 13))

/-- The ends of a `long`, at which the conversion of a number stops. -/
def clampLong (n : Int) : Int := max (-2 ^ 63) (min (2 ^ 63 - 1) n)

/-- A sign in front of a number. -/
def scanSign : List Char → Int × List Char
  | [] => (1, [])
  | c :: s => if c = '-' then (-1, s) else if c = '+' then (1, s) else (1, c :: s)

/-- `%d` of `sscanf`. -/
def scanInt (s : List Char) : Option (Int × List Char) :=
  let (sign, s) := scanSign (s.dropWhile isspace)
  let digits := s.takeWhile Char.isDigit
  if digits = [] then none
  else some (clampLong (sign * Nat.ofDigitChars 10 digits 0), s.dropWhile Char.isDigit)

/-- How much of the text of a number `%f` has read. -/
inductive FloatScan where
  /-- Nothing. -/
  | start
  /-- A sign. -/
  | sign
  /-- A zero, which may begin a hexadecimal number. -/
  | zero
  /-- The mark of a hexadecimal number. -/
  | mark
  /-- Digits. -/
  | whole (hex : Bool)
  /-- A point without digits. -/
  | point (hex : Bool)
  /-- Digits with a point. -/
  | frac (hex : Bool)
  /-- The mark of an exponent. -/
  | exp
  /-- The sign of an exponent. -/
  | expSign
  /-- The digits of an exponent. -/
  | expDigits
  /-- Letters of a word. -/
  | word (letters : List Char)
  /-- The characters behind `nan(`. -/
  | payload
  /-- The bracket behind them. -/
  | closed

/-- A digit of a number. -/
def floatDigit (hex : Bool) (c : Char) : Bool :=
  c.isDigit || (hex && decide ('a' ≤ c.toLower) && decide (c.toLower ≤ 'f'))

/-- The mark of an exponent. -/
def expMark (hex : Bool) : Char := if hex then 'p' else 'e'

/-- The words for numbers that are not finite. -/
def floatWords : List (List Char) := ["infinity".toList, "nan".toList]

/-- The first character of a number without its sign. -/
def FloatScan.first (c : Char) : Option FloatScan :=
  if c = '0' then some .zero
  else if c.isDigit then some (.whole false)
  else if c = '.' then some (.point false)
  else if floatWords.any fun w => [c.toLower].isPrefixOf w then some (.word [c.toLower])
  else none

/-- A character behind digits. -/
def FloatScan.afterWhole (hex : Bool) (c : Char) : Option FloatScan :=
  if floatDigit hex c then some (.whole hex)
  else if c = '.' then some (.frac hex)
  else if c.toLower = expMark hex then some .exp
  else none

/-- One character more, as long as a number can begin so. -/
def FloatScan.next : FloatScan → Char → Option FloatScan
  | .start, c => if c = '+' ∨ c = '-' then some .sign else first c
  | .sign, c => first c
  | .zero, c => if c.toLower = 'x' then some .mark else afterWhole false c
  | .mark, c =>
    if floatDigit true c then some (.whole true)
    else if c = '.' then some (.point true)
    else none
  | .whole hex, c => afterWhole hex c
  | .point hex, c => if floatDigit hex c then some (.frac hex) else none
  | .frac hex, c =>
    if floatDigit hex c then some (.frac hex)
    else if c.toLower = expMark hex then some .exp
    else none
  | .exp, c =>
    if c = '+' ∨ c = '-' then some .expSign
    else if c.isDigit then some .expDigits
    else none
  | .expSign, c => if c.isDigit then some .expDigits else none
  | .expDigits, c => if c.isDigit then some .expDigits else none
  | .word letters, c =>
    if floatWords.any fun w => (letters ++ [c.toLower]).isPrefixOf w then
      some (.word (letters ++ [c.toLower]))
    else if letters = "nan".toList ∧ c = '(' then some .payload
    else none
  | .payload, c =>
    if c = ')' then some .closed
    else if c.isAlphanum || c == '_' then some .payload
    else none
  | .closed, _ => none

/-- Whether what was read is a number. -/
def FloatScan.accepts : FloatScan → Bool
  | .zero | .whole _ | .frac _ | .expDigits | .closed => true
  | .word letters =>
    letters == "inf".toList || letters == "infinity".toList || letters == "nan".toList
  | _ => false

/-- The longest text that a number can begin with, and what is left. -/
def scanItem : FloatScan → List Char → FloatScan × List Char × List Char
  | scan, [] => (scan, [], [])
  | scan, c :: s =>
    match scan.next c with
    | none => (scan, [], c :: s)
    | some scan =>
      let (scan, item, rest) := scanItem scan s
      (scan, c :: item, rest)

/-- `%f` of `sscanf`: the text of a number, and what is left. -/
def scanFloat (s : List Char) : Option (List Char × List Char) :=
  let (scan, item, rest) := scanItem .start (s.dropWhile isspace)
  if scan.accepts then some (item, rest) else none

/-- The bits of `1.0`. -/
def floatOne : UInt32 := 0x3F800000

/-- `prob > 0.0` for the bits of a `float`: neither the sign is set nor is it zero or no number. -/
def probPositive (prob : UInt32) : Bool := decide (0 < prob) && decide (prob ≤ 0x7F800000)

section Read

variable (strtof : List Char → UInt32)

/-- `sscanf(s, "%d %d %f %f", ...)`, when it converts two numbers at least. -/
def scanLine (s : List Char) : Option (Int × Int × UInt32 × UInt32) := do
  let (node1, s) ← scanInt s
  let (node2, s) ← scanInt s
  match scanFloat s with
  | none => return (node1, node2, floatOne, floatOne)
  | some (item12, s) =>
    match scanFloat s with
    | none => return (node1, node2, strtof item12, floatOne)
    | some (item21, _) => return (node1, node2, strtof item12, strtof item21)

/-- An insertion of `topo_file_read`, when the link has a probability. -/
def insertProb (topo : Topo) (entry : TopoEntry) : Except Abort Topo :=
  if probPositive entry.prob then topoInsert topo entry else .ok topo

/-- One turn of the loop of `topo_file_read`. -/
def topoLine (topo : Topo) (s : List Char) : Except Abort Topo :=
  match scanLine strtof (cString s) with
  | none => .ok topo
  | some (node1, node2, prob12, prob21) => do
    let topo ← insertProb topo { src := .ofInt node1, dst := .ofInt node2, prob := prob12 }
    insertProb topo { src := .ofInt node2, dst := .ofInt node1, prob := prob21 }

/-- The loop of `topo_file_read`. -/
def topoFileLoop : Nat → List Char → Topo → Except Abort Topo
  | 0, _, topo => .ok topo
  | fuel + 1, text, topo =>
    match fgets 1024 text with
    | none => .ok topo
    | some (s, rest) => do
      let topo ← topoLine strtof topo s
      topoFileLoop fuel rest topo

/-- `topo_file_read`. Every turn reads a character at least. -/
def topoFileRead (topo : Topo) (text : List Char) : Except Abort Topo :=
  topoFileLoop strtof text.length text topo

/-- The entries that a line gives. -/
def lineEntries (s : List Char) : List TopoEntry :=
  match scanLine strtof (cString s) with
  | none => []
  | some (node1, node2, prob12, prob21) =>
    [{ src := .ofInt node1, dst := .ofInt node2, prob := prob12 },
      { src := .ofInt node2, dst := .ofInt node1, prob := prob21 }].filter
        fun entry => probPositive entry.prob

/-- The lines that are read of a file. -/
def fileLines : Nat → List Char → List (List Char)
  | 0, _ => []
  | fuel + 1, text =>
    match fgets 1024 text with
    | none => []
    | some (s, rest) => s :: fileLines fuel rest

/-- The entries that a file gives. -/
def fileEntries (text : List Char) : List TopoEntry :=
  (fileLines text.length text).flatMap (lineEntries strtof)

/-- A line inserts its entries. -/
theorem topoLine_eq (topo : Topo) (s : List Char) :
    topoLine strtof topo s = (lineEntries strtof s).foldlM topoInsert topo := by
  unfold topoLine lineEntries
  split
  · rfl
  · rw [List.foldlM_filter]
    simp only [List.foldlM_cons, List.foldlM_nil, bind_pure]
    rfl

/-- The loop inserts the entries of the lines it reads. -/
theorem topoFileLoop_eq (fuel : Nat) (text : List Char) (topo : Topo) :
    topoFileLoop strtof fuel text topo =
      ((fileLines fuel text).flatMap (lineEntries strtof)).foldlM topoInsert topo := by
  induction fuel generalizing text topo with
  | zero => rfl
  | succ fuel ih =>
    rw [topoFileLoop, fileLines]
    cases fgets 1024 text with
    | none => rfl
    | some line =>
      dsimp only
      rw [List.flatMap_cons, List.foldlM_append, topoLine_eq]
      exact bind_congr fun topo' => ih line.2 topo'

/-- The table of a file is the one of its entries. -/
theorem topoFileRead_eq (text : List Char) :
    topoFileRead strtof topoNew text = topoRead (fileEntries strtof text) :=
  topoFileLoop_eq strtof text.length text topoNew

end Read

/-! ## Files of links and comments -/

/-- A line of a file of links. -/
inductive FileLine where
  /-- A comment, behind its mark. -/
  | comment (text : List Char)
  /-- The numbers of two nodes with a gap between, and what stands behind them. -/
  | link (n m : Nat) (gap : Char) (behind : List Char)

/-- The characters of a line. -/
def FileLine.text : FileLine → List Char
  | .comment text => '#' :: text
  | .link n m gap behind => Nat.toDigits 10 n ++ gap :: (Nat.toDigits 10 m ++ behind)

/-- The text of a file. -/
def fileText (lines : List FileLine) : List Char := lines.flatMap fun l => l.text ++ ['\n']

/-- The links of a line. -/
def FileLine.ends : FileLine → List (Nat × Nat)
  | .comment _ => []
  | .link n m _ _ => [(n, m)]

/-- Behind the numbers of a link stands nothing or a comment. -/
inductive EndsLine : List Char → Prop where
  /-- Nothing. -/
  | nothing : EndsLine []
  /-- A comment. -/
  | comment {gap : Char} {text : List Char} (space : isspace gap = true) :
    EndsLine (gap :: '#' :: text)

/-- A text that can stand in a line: without an end of a line, without a zero, and not long. -/
structure OneLine (k : Nat) (s : List Char) : Prop where
  /-- It does not end a line. -/
  newline : '\n' ∉ s
  /-- It has no zero character. -/
  nonzero : ∀ c ∈ s, c.toNat ≠ 0
  /-- It is not long. -/
  length_le : s.length ≤ k

theorem OneLine.append {j k : Nat} {s t : List Char} (hs : OneLine j s) (ht : OneLine k t) :
    OneLine (j + k) (s ++ t) where
  newline h := (List.mem_append.mp h).elim hs.newline ht.newline
  nonzero c h := (List.mem_append.mp h).elim (hs.nonzero c) (ht.nonzero c)
  length_le := by
    rw [List.length_append]
    exact Nat.add_le_add hs.length_le ht.length_le

theorem OneLine.mono {j k : Nat} {s : List Char} (h : OneLine j s) (hle : j ≤ k) : OneLine k s :=
  { h with length_le := h.length_le.trans hle }

/-- A line that is read as it is meant: the buffer takes it whole, and a link is one between numbers
of nodes. -/
structure FileLine.Plain (l : FileLine) : Prop where
  /-- The buffer takes it, with its end. -/
  line : OneLine 1022 l.text
  /-- Its numbers are of nodes, and are followed by a comment at most. -/
  link : ∀ n m gap behind, l = .link n m gap behind →
    n < 2 ^ 16 ∧ m < 2 ^ 16 ∧ isspace gap = true ∧ EndsLine behind

/-- What a number takes of a line. -/
theorem oneLine_toDigits {n k : Nat} (hk : 0 < k) (h : n < 10 ^ k) :
    OneLine k (Nat.toDigits 10 n) := by
  have hdigit : ∀ c ∈ Nat.toDigits 10 n, c.isDigit = true := fun c hc =>
    Nat.isDigit_of_mem_toDigits (by decide) le_rfl hc
  refine ⟨fun hc => ?_, fun c hc hzero => ?_,
    (Nat.length_toDigits_le_iff (by decide) hk).mpr h⟩
  · exact absurd (hdigit _ hc) (by decide)
  · obtain rfl : c = Char.ofNat 0 := Char.toNat_inj.mp hzero
    exact absurd (hdigit _ hc) (by decide)

/-- What a fixed text takes of a line. -/
theorem oneLine_text {s : List Char} (h : (s.all fun c => c ≠ '\n' && c.toNat ≠ 0) = true) :
    OneLine s.length s := by
  rw [List.all_eq_true] at h
  refine ⟨fun hc => ?_, fun c hc => ?_, le_rfl⟩
  · exact absurd (h _ hc) (by decide)
  · have := h c hc
    simp only [Bool.and_eq_true, decide_eq_true_eq] at this
    exact this.2

theorem plain_comment {text : List Char} (h : OneLine 1021 text) : (FileLine.comment text).Plain :=
  ⟨(oneLine_text (s := ['#']) (by decide)).append h, fun _ _ _ _ heq => by cases heq⟩

/-- The entries of a link: one in each direction, with probability `1.0`. -/
def linkEntries (p : Nat × Nat) : List TopoEntry :=
  [{ src := .ofNat p.1, dst := .ofNat p.2, prob := floatOne },
    { src := .ofNat p.2, dst := .ofNat p.1, prob := floatOne }]

theorem fgetsLoop_line {room : Nat} {l : List Char} (rest : List Char) (hline : '\n' ∉ l)
    (hroom : l.length < room) : fgetsLoop room (l ++ '\n' :: rest) = (l ++ ['\n'], rest) := by
  induction l generalizing room with
  | nil =>
    cases room with
    | zero => cases hroom
    | succ room => rfl
  | cons c l ih =>
    cases room with
    | zero => cases hroom
    | succ room =>
      obtain ⟨hc, hl⟩ := not_or.mp (mt List.mem_cons.mpr hline)
      rw [List.cons_append, fgetsLoop, if_neg (Ne.symm hc), ih hl (Nat.lt_of_succ_lt_succ hroom)]
      rfl

theorem fileText_cons (l : FileLine) (lines : List FileLine) :
    fileText (l :: lines) = l.text ++ '\n' :: fileText lines := by
  rw [fileText, List.flatMap_cons, List.append_assoc]
  rfl

/-- A line has a character at least. -/
theorem length_le_fileText (lines : List FileLine) : lines.length ≤ (fileText lines).length := by
  induction lines with
  | nil => exact Nat.zero_le _
  | cons l lines ih =>
    rw [fileText_cons, List.length_append, List.length_cons, List.length_cons]
    omega

/-- The lines that are read first are those that were written first. -/
theorem fileLines_fileText_append {lines : List FileLine} (h : ∀ l ∈ lines, l.Plain) (fuel : Nat)
    (rest : List Char) :
    fileLines (lines.length + fuel) (fileText lines ++ rest) =
      (lines.map fun l => l.text ++ ['\n']) ++ fileLines fuel rest := by
  induction lines with
  | nil => rw [List.length_nil, Nat.zero_add, fileText, List.flatMap_nil, List.map_nil]; rfl
  | cons l lines ih =>
    obtain ⟨hl, hlines⟩ := List.forall_mem_cons.mp h
    have hfirst : fgets 1024 (l.text ++ '\n' :: (fileText lines ++ rest)) =
        some (l.text ++ ['\n'], fileText lines ++ rest) := by
      rw [fgets, if_neg (by simp),
        fgetsLoop_line _ hl.line.newline (Nat.lt_succ_of_le hl.line.length_le)]
    rw [List.length_cons, Nat.add_right_comm, fileText_cons, List.append_assoc, List.cons_append,
      fileLines, hfirst, List.map_cons]
    exact congrArg _ (ih hlines)

theorem not_isspace_of_isDigit {c : Char} (h : c.isDigit = true) : isspace c = false := by
  simp only [Char.isDigit, Bool.and_eq_true, decide_eq_true_eq, ge_iff_le,
    UInt32.le_iff_toNat_le] at h
  have hc : c.toNat = c.val.toNat := rfl
  have h0 : '0'.val.toNat = 48 := rfl
  rw [isspace, Bool.or_eq_false_iff, Bool.and_eq_false_iff, beq_eq_false_iff_ne,
    decide_eq_false_iff_not, decide_eq_false_iff_not]
  refine ⟨?_, by omega⟩
  rintro rfl
  exact absurd h.1 (by decide)

/-- A printed number is read back, up to the end of its digits. -/
theorem scanInt_toDigits (gap : List Char) {rest : List Char}
    (hgap : ∀ c ∈ gap, isspace c = true) (n : Nat)
    (hrest : rest.takeWhile Char.isDigit = []) :
    scanInt (gap ++ (Nat.toDigits 10 n ++ rest)) = some (clampLong n, rest) := by
  have hdigits : ∀ c ∈ Nat.toDigits 10 n, c.isDigit = true := fun c hc =>
    Nat.isDigit_of_mem_toDigits (by decide) le_rfl hc
  have hrest' : rest.dropWhile Char.isDigit = rest := by
    have := List.takeWhile_append_dropWhile (p := Char.isDigit) (l := rest)
    rwa [hrest, List.nil_append] at this
  obtain ⟨d, ds, hd⟩ := List.exists_cons_of_ne_nil (Nat.toDigits_ne_nil (n := n) (b := 10))
  have hdigit : d.isDigit = true := hdigits d (hd ▸ List.mem_cons_self)
  have hskip : (gap ++ (Nat.toDigits 10 n ++ rest)).dropWhile isspace =
      Nat.toDigits 10 n ++ rest := by
    rw [List.dropWhile_append_of_pos hgap, hd, List.cons_append,
      List.dropWhile_cons_of_neg (by rw [not_isspace_of_isDigit hdigit]; decide)]
  have hsign : scanSign (Nat.toDigits 10 n ++ rest) = (1, Nat.toDigits 10 n ++ rest) := by
    rw [hd, List.cons_append, scanSign, if_neg, if_neg]
    · rintro rfl
      exact absurd hdigit (by decide)
    · rintro rfl
      exact absurd hdigit (by decide)
  rw [scanInt, hskip, hsign]
  dsimp only
  rw [List.takeWhile_append_of_pos hdigits, hrest, List.append_nil, if_neg Nat.toDigits_ne_nil,
    List.dropWhile_append_of_pos hdigits, hrest', Nat.ofDigitChars_ten_toDigits, Int.one_mul]

theorem clampLong_natCast {n : Nat} (h : n < 2 ^ 16) : clampLong n = n := by
  rw [clampLong, min_eq_right (by omega), max_eq_right (by omega)]

/-- Behind the numbers of a link there is no number. -/
theorem EndsLine.scanFloat_eq_none {behind : List Char} (h : EndsLine behind) :
    scanFloat (behind ++ ['\n']) = none := by
  cases h with
  | nothing => rfl
  | comment space =>
    rw [scanFloat, List.cons_append, List.dropWhile_cons_of_pos space, List.cons_append,
      List.dropWhile_cons_of_neg (by decide)]
    rfl

/-- Behind the numbers of a link there is no digit. -/
theorem EndsLine.takeWhile_isDigit {behind : List Char} (h : EndsLine behind) :
    (behind ++ ['\n']).takeWhile Char.isDigit = [] := by
  cases h with
  | nothing => rfl
  | @comment gap text space =>
    have hdigit : ¬ gap.isDigit = true := fun hd => by
      rw [not_isspace_of_isDigit hd] at space
      cases space
    rw [List.cons_append, List.takeWhile_cons_of_neg hdigit]

/-- A line gives the entries of its link, or none. -/
theorem FileLine.Plain.lineEntries_eq (strtof : List Char → UInt32) {l : FileLine} (h : l.Plain) :
    lineEntries strtof (l.text ++ ['\n']) = l.ends.flatMap linkEntries := by
  have hwhole : cString (l.text ++ ['\n']) = l.text ++ ['\n'] := by
    refine List.takeWhile_eq_self_iff.mpr fun c hc => decide_eq_true ?_
    rcases List.mem_append.mp hc with hc | hc
    · exact h.line.nonzero c hc
    · exact List.mem_singleton.mp hc ▸ by decide
  rw [lineEntries, hwhole]
  cases l with
  | comment text =>
    have hnone : scanInt ('#' :: (text ++ ['\n'])) = none := rfl
    simp only [FileLine.text, List.cons_append, scanLine, hnone]
    rfl
  | link n m gap behind =>
    obtain ⟨hn, hm, hgap, hbehind⟩ := h.link n m gap behind rfl
    have hfirst : scanInt (Nat.toDigits 10 n ++ gap :: (Nat.toDigits 10 m ++ (behind ++ ['\n']))) =
        some ((n : Int), gap :: (Nat.toDigits 10 m ++ (behind ++ ['\n']))) := by
      have hdigit : ¬ gap.isDigit = true := fun hd => by
        rw [not_isspace_of_isDigit hd] at hgap
        cases hgap
      rw [← clampLong_natCast hn]
      exact scanInt_toDigits [] (fun c hc => absurd hc List.not_mem_nil) n
        (List.takeWhile_cons_of_neg hdigit)
    have hsecond : scanInt (gap :: (Nat.toDigits 10 m ++ (behind ++ ['\n']))) =
        some ((m : Int), behind ++ ['\n']) := by
      rw [← clampLong_natCast hm]
      exact scanInt_toDigits [gap] (List.forall_mem_singleton.mpr hgap) m
        hbehind.takeWhile_isDigit
    have htext : (FileLine.link n m gap behind).text ++ ['\n'] =
        Nat.toDigits 10 n ++ gap :: (Nat.toDigits 10 m ++ (behind ++ ['\n'])) := by
      simp only [FileLine.text, List.append_assoc, List.cons_append]
    have hscan : scanLine strtof ((FileLine.link n m gap behind).text ++ ['\n']) =
        some ((n : Int), (m : Int), floatOne, floatOne) := by
      simp only [htext, scanLine, hfirst, hsecond, hbehind.scanFloat_eq_none, Option.bind_eq_bind,
        Option.bind_some, Option.pure_def]
    have hid : ∀ k : Nat, UInt16.ofInt (k : Int) = UInt16.ofNat k := fun k => by
      rw [UInt16.ofInt, Int.toNat_emod (Int.natCast_nonneg k) (by decide), Int.toNat_natCast]
      exact UInt16.ofNat_mod_size
    rw [hscan]
    dsimp only
    rw [hid, hid]
    rfl

/-- The links of a file. -/
def fileLinks (lines : List FileLine) : List (Nat × Nat) := lines.flatMap FileLine.ends

/-- The entries of a file begin with those of the links that it begins with. -/
theorem fileEntries_fileText_append (strtof : List Char → UInt32) {lines : List FileLine}
    (h : ∀ l ∈ lines, l.Plain) (rest : List Char) :
    ∃ more, fileEntries strtof (fileText lines ++ rest) =
      (fileLinks lines).flatMap linkEntries ++ more ∧ (rest = [] → more = []) := by
  obtain ⟨fuel, hfuel⟩ : ∃ fuel, (fileText lines ++ rest).length = lines.length + fuel :=
    Nat.exists_eq_add_of_le ((length_le_fileText lines).trans
      (by rw [List.length_append]; exact Nat.le_add_right ..))
  refine ⟨(fileLines fuel rest).flatMap (lineEntries strtof), ?_, ?_⟩
  · rw [fileEntries, hfuel, fileLines_fileText_append h, List.flatMap_append, List.flatMap_map,
      fileLinks, List.flatMap_assoc]
    congr 1
    exact List.flatMap_congr fun l hl => (h l hl).lineEntries_eq strtof
  · rintro rfl
    cases fuel <;> rfl

/-- A file of links and comments gives the entries of its links. -/
theorem fileEntries_fileText (strtof : List Char → UInt32) {lines : List FileLine}
    (h : ∀ l ∈ lines, l.Plain) :
    fileEntries strtof (fileText lines) = (fileLinks lines).flatMap linkEntries := by
  obtain ⟨more, heq, hmore⟩ := fileEntries_fileText_append strtof h []
  rw [List.append_nil, hmore rfl, List.append_nil] at heq
  exact heq

/-! ## The table of a file -/

theorem mem_linkEntries {a b : NodeId} {links : List (Nat × Nat)}
    (hlt : ∀ p ∈ links, p.1 < 2 ^ 16 ∧ p.2 < 2 ^ 16) :
    (∃ l ∈ links.flatMap linkEntries, l.src = a ∧ l.dst = b) ↔
      (a.toNat, b.toNat) ∈ links ∨ (b.toNat, a.toNat) ∈ links := by
  constructor
  · rintro ⟨l, hl, rfl, rfl⟩
    obtain ⟨⟨n, m⟩, hp, hl⟩ := List.mem_flatMap.mp hl
    obtain ⟨hn, hm⟩ := hlt _ hp
    rcases List.mem_cons.mp hl with rfl | hl
    · left
      rwa [UInt16.toNat_ofNat_of_lt' hn, UInt16.toNat_ofNat_of_lt' hm]
    · rw [List.mem_singleton.mp hl]
      right
      rwa [UInt16.toNat_ofNat_of_lt' hn, UInt16.toNat_ofNat_of_lt' hm]
  · rintro (hp | hp)
    · exact ⟨_, List.mem_flatMap.mpr ⟨_, hp, List.mem_cons_self⟩, UInt16.ofNat_toNat,
        UInt16.ofNat_toNat⟩
    · exact ⟨_, List.mem_flatMap.mpr ⟨_, hp, List.mem_cons_of_mem _ List.mem_cons_self⟩,
        UInt16.ofNat_toNat, UInt16.ofNat_toNat⟩

theorem FileLine.Plain.ends_lt {l : FileLine} (h : l.Plain) {p : Nat × Nat} (hp : p ∈ l.ends) :
    p.1 < 2 ^ 16 ∧ p.2 < 2 ^ 16 := by
  cases l with
  | comment text => exact absurd hp List.not_mem_nil
  | link n m gap behind =>
    obtain rfl := List.mem_singleton.mp hp
    obtain ⟨hn, hm, -⟩ := h.link n m gap behind rfl
    exact ⟨hn, hm⟩

theorem fileLinks_lt {lines : List FileLine} (h : ∀ l ∈ lines, l.Plain) :
    ∀ p ∈ fileLinks lines, p.1 < 2 ^ 16 ∧ p.2 < 2 ^ 16 := fun p hp => by
  obtain ⟨l, hl, hp⟩ := List.mem_flatMap.mp hp
  exact (h l hl).ends_lt hp

/-- In the table of a file of links and comments, the links lead both ways. -/
theorem topoFileRead_link {strtof : List Char → UInt32} {lines : List FileLine}
    (h : ∀ l ∈ lines, l.Plain) {topo : Topo}
    (hread : topoFileRead strtof topoNew (fileText lines) = .ok topo) {a b : NodeId} :
    topo.Link a b ↔
      a ≠ b ∧ ((a.toNat, b.toNat) ∈ fileLinks lines ∨ (b.toNat, a.toNat) ∈ fileLinks lines) := by
  rw [topoFileRead_eq, fileEntries_fileText strtof h] at hread
  rw [(topoRead_valid hread).2 a b, mem_linkEntries (fileLinks_lt h)]

/-- Every entry of a table without repeated links takes a slot of its own. -/
theorem entries_topoRead {links : List TopoEntry} {topo : Topo} (h : topoRead links = .ok topo)
    (hne : ∀ l ∈ links, l.src ≠ l.dst) (hnodup : (links.map fun l => (l.src, l.dst)).Nodup) :
    topo.entries = links.length := by
  induction links using List.reverseRecOn generalizing topo with
  | nil =>
    cases h
    rfl
  | append_singleton links l ih =>
    rw [List.map_append, List.nodup_append'] at hnodup
    obtain ⟨hbefore, -, hnew⟩ := hnodup
    rw [topoRead, List.foldlM_append] at h
    obtain ⟨topo₁, h₁, hins⟩ := bind_eq_ok h
    obtain ⟨topo₂, hins, hrun⟩ := bind_eq_ok hins
    cases hrun
    obtain ⟨-, m, -, ⟨hslot, -⟩ | ⟨-, hentries⟩⟩ := topoInsert_cases hins
    · -- a slot that holds the link already is of an earlier entry
      obtain ⟨hempty, hsrc, hdst⟩ := topoSlot_true hslot
      have hlink : topo₁.Link l.src l.dst := ⟨hne l (by simp), m, hsrc, hdst⟩
      obtain ⟨-, l', hl', hsrc', hdst'⟩ := ((topoRead_valid h₁).2 _ _).mp hlink
      refine absurd (List.mem_map.mpr ⟨l', hl', ?_⟩) fun hold =>
        hnew hold (List.mem_singleton_self _)
      rw [hsrc', hdst']
    · rw [hentries, ih h₁ (fun l hl => hne l (List.mem_append_left _ hl)) hbefore,
        List.length_append, List.length_singleton]

/-- A table without repeated links can be read if it has room for them. -/
theorem exists_topoRead_iff {links : List TopoEntry} (hne : ∀ l ∈ links, l.src ≠ l.dst)
    (hnodup : (links.map fun l => (l.src, l.dst)).Nodup) :
    (∃ topo, topoRead links = .ok topo) ↔ links.length ≤ topoMaxentries := by
  constructor
  · rintro ⟨topo, h⟩
    rw [← entries_topoRead h hne hnodup]
    exact (topoRead_valid h).1.entries_le
  · intro hroom
    induction links using List.reverseRecOn with
    | nil => exact ⟨topoNew, rfl⟩
    | append_singleton links l ih =>
      rw [List.length_append, List.length_singleton] at hroom
      have hne' : ∀ l ∈ links, l.src ≠ l.dst := fun l hl => hne l (List.mem_append_left _ hl)
      have hnodup' : (links.map fun l => (l.src, l.dst)).Nodup := by
        rw [List.map_append] at hnodup
        exact hnodup.of_append_left
      obtain ⟨topo, h⟩ := ih hne' hnodup' (by omega)
      have hentries := entries_topoRead h hne' hnodup'
      have hins : ∃ topo', topoInsert topo l = .ok topo' := by
        unfold topoInsert
        rw [if_pos (by omega)]
        split
        · exact ⟨_, rfl⟩
        · exact ⟨_, rfl⟩
      obtain ⟨topo', hins⟩ := hins
      refine ⟨topo', ?_⟩
      rw [topoRead] at h ⊢
      rw [List.foldlM_append, h]
      exact (bind_pure _).trans hins

/-- Both directions of some links. -/
def bothWays (links : List (Nat × Nat)) : List (Nat × Nat) := links.flatMap fun p => [p, p.swap]

/-- Links with the larger number in front, each once, are not repeated in the other direction. -/
theorem nodup_bothWays {links : List (Nat × Nat)} (hnodup : links.Nodup)
    (hlt : ∀ p ∈ links, p.2 < p.1) : (bothWays links).Nodup := by
  refine List.nodup_flatMap.mpr ⟨fun p hp => ?_, hnodup.imp_of_mem fun {p q} hp hq hne => ?_⟩
  · have := hlt p hp
    simp [Prod.ext_iff]
    omega
  · have hp := hlt p hp
    have hq := hlt q hq
    rw [Function.onFun, List.disjoint_left]
    intro r hrp hrq
    simp only [List.mem_cons, List.not_mem_nil, or_false] at hrp hrq
    rcases hrp with rfl | rfl
    · rcases hrq with rfl | rfl
      · exact hne rfl
      · exact absurd hp (by rw [Prod.fst_swap, Prod.snd_swap]; omega)
    · rcases hrq with rfl | heq
      · exact absurd hq (by rw [Prod.fst_swap, Prod.snd_swap]; omega)
      · exact hne (Prod.swap_injective heq)

/-- Links that are not repeated can be read if the table has room for both directions of them. -/
theorem exists_topoRead_links_iff {links : List (Nat × Nat)}
    (hlt : ∀ p ∈ links, p.1 < 2 ^ 16 ∧ p.2 < 2 ^ 16) (hnodup : (bothWays links).Nodup) :
    (∃ topo, topoRead (links.flatMap linkEntries) = .ok topo) ↔
      2 * links.length ≤ topoMaxentries := by
  have hends : (links.flatMap linkEntries).map (fun l => (l.src, l.dst)) =
      (bothWays links).map fun p => (UInt16.ofNat p.1, UInt16.ofNat p.2) := by
    rw [bothWays, List.map_flatMap, List.map_flatMap]
    rfl
  have hinj : ∀ p ∈ bothWays links, p.1 < 2 ^ 16 ∧ p.2 < 2 ^ 16 := by
    intro p hp
    obtain ⟨q, hq, hp⟩ := List.mem_flatMap.mp hp
    simp only [List.mem_cons, List.not_mem_nil, or_false] at hp
    rcases hp with rfl | rfl
    · exact hlt _ hq
    · exact (hlt _ hq).symm
  have hnumber : ∀ {j k : Nat}, j < 2 ^ 16 → k < 2 ^ 16 → UInt16.ofNat j = UInt16.ofNat k →
      j = k := fun hj hk heq => by
    rw [← UInt16.toNat_ofNat_of_lt' hj, heq, UInt16.toNat_ofNat_of_lt' hk]
  have hother : ∀ l ∈ links.flatMap linkEntries, l.src ≠ l.dst := by
    rintro l hl heq
    obtain ⟨p, hp, hl⟩ := List.mem_flatMap.mp hl
    obtain ⟨hfst, hsnd⟩ := hlt p hp
    have hne : p ≠ p.swap := by
      have := (List.nodup_flatMap.mp hnodup).1 p hp
      rintro hswap
      exact (List.nodup_cons.mp this).1 (List.mem_singleton.mpr hswap)
    have hsame : p.1 = p.2 := by
      rcases List.mem_cons.mp hl with rfl | hl
      · exact hnumber hfst hsnd heq
      · rw [List.mem_singleton.mp hl] at heq
        exact (hnumber hsnd hfst heq).symm
    exact hne (Prod.ext hsame hsame.symm)
  have hlength : (links.flatMap linkEntries).length = 2 * links.length := by
    have htwo : ∀ p ∈ links, (linkEntries p).length = 2 := fun _ _ => rfl
    rw [List.length_flatMap, List.map_congr_left htwo, List.map_const', List.sum_replicate_nat,
      Nat.mul_comm]
  rw [exists_topoRead_iff hother, hlength]
  rw [hends]
  refine hnodup.map_on fun p hp q hq heq => ?_
  obtain ⟨hfst, hsnd⟩ := Prod.mk.inj heq
  exact Prod.ext (hnumber (hinj p hp).1 (hinj q hq).1 hfst)
    (hnumber (hinj p hp).2 (hinj q hq).2 hsnd)

section File

variable {strtof : List Char → UInt32} {lines : List FileLine}

/-- A file of links and comments that repeats no link can be read if the table has room for both
directions of its links. -/
theorem exists_topoFileRead_iff (h : ∀ l ∈ lines, l.Plain)
    (hnodup : (bothWays (fileLinks lines)).Nodup) :
    (∃ topo, topoFileRead strtof topoNew (fileText lines) = .ok topo) ↔
      2 * (fileLinks lines).length ≤ topoMaxentries := by
  rw [topoFileRead_eq, fileEntries_fileText strtof h,
    exists_topoRead_links_iff (fileLinks_lt h) hnodup]

/-- Whatever follows, the table has room for the links that a file begins with. -/
theorem length_fileLinks_le (h : ∀ l ∈ lines, l.Plain)
    (hnodup : (bothWays (fileLinks lines)).Nodup) {rest : List Char} {topo : Topo}
    (hread : topoFileRead strtof topoNew (fileText lines ++ rest) = .ok topo) :
    2 * (fileLinks lines).length ≤ topoMaxentries := by
  obtain ⟨more, heq, -⟩ := fileEntries_fileText_append strtof h rest
  rw [topoFileRead_eq, heq, topoRead, List.foldlM_append] at hread
  obtain ⟨topo', hread', -⟩ := bind_eq_ok hread
  exact (exists_topoRead_links_iff (fileLinks_lt h) hnodup).mp ⟨topo', hread'⟩

end File

end OldRadio.Second
