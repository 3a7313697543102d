import Mathlib.Computability.RegularExpressions
import OldRadio.Library.Runs

/-!
# Patterns of alternating runs

The words over two letters that begin with one and end with the other fall into
blocks, each a run of the first letter and a run of the second. The pattern
`(1{1,m}0{1,n})+` asks for such blocks with bounded runs, and so matches exactly
the words in which no run is longer.
-/

namespace OldRadio.Library

open RegularExpression

section Pattern

variable {α : Type*} [DecidableEq α]

/-- One to `n` times a pattern. -/
def upTo (P : RegularExpression α) : Nat → RegularExpression α
  | 0 => 0
  | n + 1 => upTo P n + P ^ (n + 1)

/-- A pattern at least once. -/
def atLeastOnce (P : RegularExpression α) : RegularExpression α := P * P.star

theorem rmatch_char_pow (a : α) (k : Nat) (x : List α) :
    (char a ^ k).rmatch x = true ↔ x = List.replicate k a := by
  induction k generalizing x with
  | zero => exact one_rmatch_iff x
  | succ k ih =>
    have hpow : char a ^ (k + 1) = char a ^ k * char a := rfl
    rw [hpow, mul_rmatch_iff, List.replicate_succ']
    constructor
    · rintro ⟨front, last, rfl, hfront, hlast⟩
      rw [(ih front).mp hfront, (char_rmatch_iff a last).mp hlast]
    · rintro rfl
      exact ⟨_, _, rfl, (ih _).mpr rfl, (char_rmatch_iff a _).mpr rfl⟩

theorem rmatch_upTo_char (a : α) (n : Nat) (x : List α) :
    (upTo (char a) n).rmatch x = true ↔ ∃ k, 1 ≤ k ∧ k ≤ n ∧ x = List.replicate k a := by
  induction n with
  | zero =>
    rw [upTo, zero_rmatch]
    refine iff_of_false Bool.false_ne_true ?_
    rintro ⟨k, h1, h0, -⟩
    omega
  | succ n ih =>
    rw [upTo, add_rmatch_iff, ih, rmatch_char_pow]
    constructor
    · rintro (⟨k, h1, hk, hx⟩ | hx)
      · exact ⟨k, h1, Nat.le_succ_of_le hk, hx⟩
      · exact ⟨n + 1, Nat.succ_pos n, Nat.le_refl _, hx⟩
    · rintro ⟨k, h1, hk, hx⟩
      rcases Nat.lt_or_eq_of_le hk with hlt | rfl
      · exact Or.inl ⟨k, h1, Nat.le_of_lt_succ hlt, hx⟩
      · exact Or.inr hx

end Pattern

/-- A run of ones and a run of zeros. -/
def runBlock (a b : Nat) : List Bool := List.replicate a true ++ List.replicate b false

theorem head?_runBlock {a b : Nat} (ha : 1 ≤ a) : (runBlock a b).head? = some true := by
  obtain ⟨k, rfl⟩ : ∃ k, a = k + 1 := ⟨a - 1, by omega⟩
  rfl

theorem getLast?_runBlock {a b : Nat} (hb : 1 ≤ b) : (runBlock a b).getLast? = some false := by
  obtain ⟨k, rfl⟩ : ∃ k, b = k + 1 := ⟨b - 1, by omega⟩
  rw [runBlock, List.replicate_succ', ← List.append_assoc, List.getLast?_concat]

/-- The words that fall into blocks with runs of at most `m` ones and `n` zeros. -/
inductive RunBlocks (m n : Nat) : List Bool → Prop where
  /-- One block. -/
  | one {a b : Nat} (ha : 1 ≤ a ∧ a ≤ m) (hb : 1 ≤ b ∧ b ≤ n) : RunBlocks m n (runBlock a b)
  /-- A block in front of others. -/
  | cons {a b : Nat} {rest : List Bool} (ha : 1 ≤ a ∧ a ≤ m) (hb : 1 ≤ b ∧ b ≤ n)
    (hrest : RunBlocks m n rest) : RunBlocks m n (runBlock a b ++ rest)

/-- `(1{1,m}0{1,n})+`. -/
def runPattern (m n : Nat) : RegularExpression Bool :=
  atLeastOnce (upTo (char true) m * upTo (char false) n)

variable {m n : Nat} {x : List Bool}

theorem rmatch_block : (upTo (char true) m * upTo (char false) n).rmatch x = true ↔
    ∃ a b, (1 ≤ a ∧ a ≤ m) ∧ (1 ≤ b ∧ b ≤ n) ∧ x = runBlock a b := by
  rw [mul_rmatch_iff]
  constructor
  · rintro ⟨ones, zeros, rfl, hones, hzeros⟩
    obtain ⟨a, ha, ham, rfl⟩ := (rmatch_upTo_char true m ones).mp hones
    obtain ⟨b, hb, hbn, rfl⟩ := (rmatch_upTo_char false n zeros).mp hzeros
    exact ⟨a, b, ⟨ha, ham⟩, ⟨hb, hbn⟩, rfl⟩
  · rintro ⟨a, b, ha, hb, rfl⟩
    exact ⟨_, _, rfl, (rmatch_upTo_char true m _).mpr ⟨a, ha.1, ha.2, rfl⟩,
      (rmatch_upTo_char false n _).mpr ⟨b, hb.1, hb.2, rfl⟩⟩

/-- The pattern matches the words that fall into blocks. -/
theorem rmatch_runPattern : (runPattern m n).rmatch x = true ↔ RunBlocks m n x := by
  rw [runPattern, atLeastOnce, mul_rmatch_iff]
  constructor
  · rintro ⟨first, rest, rfl, hfirst, hrest⟩
    obtain ⟨a, b, ha, hb, rfl⟩ := rmatch_block.mp hfirst
    obtain ⟨blocks, rfl, hblocks⟩ := (star_rmatch_iff _ rest).mp hrest
    clear hfirst hrest
    induction blocks generalizing a b with
    | nil =>
      rw [List.flatten_nil, List.append_nil]
      exact .one ha hb
    | cons block blocks ih =>
      obtain ⟨a', b', ha', hb', rfl⟩ := rmatch_block.mp (hblocks block List.mem_cons_self).2
      exact .cons ha hb (ih a' b' ha' hb' fun t ht => hblocks t (List.mem_cons_of_mem _ ht))
  · intro h
    induction h with
    | one ha hb =>
      refine ⟨_, [], (List.append_nil _).symm, rmatch_block.mpr ⟨_, _, ha, hb, rfl⟩, ?_⟩
      exact (star_rmatch_iff _ _).mpr ⟨[], rfl, fun t ht => absurd ht List.not_mem_nil⟩
    | cons ha hb _ ih =>
      obtain ⟨first, rest, rfl, hfirst, hrest⟩ := ih
      refine ⟨_, first ++ rest, rfl, rmatch_block.mpr ⟨_, _, ha, hb, rfl⟩, ?_⟩
      obtain ⟨blocks, rfl, hblocks⟩ := (star_rmatch_iff _ rest).mp hrest
      refine (star_rmatch_iff _ _).mpr ⟨first :: blocks, rfl, fun t ht => ?_⟩
      rcases List.mem_cons.mp ht with rfl | ht
      · refine ⟨?_, hfirst⟩
        rintro rfl
        obtain ⟨a', b', ha', -, hnil⟩ := rmatch_block.mp hfirst
        have hhead := head?_runBlock (b := b') ha'.1
        rw [← hnil] at hhead
        cases hhead
      · exact hblocks t ht

/-! ## Bounded runs -/

theorem RunsAtMost.of_infix {α : Type*} {b : α} {k : Nat} {l l' : List α}
    (h : RunsAtMost b k l') (hl : l <:+: l') : RunsAtMost b k l := fun hrun => h (hrun.trans hl)

theorem runsAtMost_replicate {α : Type*} (b c : α) {k n : Nat} (h : k ≤ n) :
    RunsAtMost b n (List.replicate k c) := by
  intro hrun
  have hlen := hrun.length_le
  rw [List.length_replicate, List.length_replicate] at hlen
  omega

theorem runsAtMost_replicate_of_ne {α : Type*} {b c : α} (h : b ≠ c) (k n : Nat) :
    RunsAtMost b n (List.replicate k c) := fun hrun =>
  h (List.eq_of_mem_replicate (hrun.subset (List.mem_replicate.mpr ⟨Nat.succ_ne_zero n, rfl⟩)))

theorem runsAtMost_runBlock {a b : Nat} (ha : 1 ≤ a ∧ a ≤ m) (hb : 1 ≤ b ∧ b ≤ n) :
    RunsAtMost true m (runBlock a b) ∧ RunsAtMost false n (runBlock a b) := by
  have hones : (List.replicate a true).getLast? = some true := by
    rw [List.getLast?_replicate, if_neg (by omega)]
  have hzeros : (List.replicate b false).head? = some false := by
    rw [List.head?_replicate, if_neg (by omega)]
  refine ⟨(runsAtMost_replicate _ _ ha.2).append (runsAtMost_replicate_of_ne (by decide) _ _)
    (Or.inr ?_), (runsAtMost_replicate_of_ne (by decide) _ _).append
    (runsAtMost_replicate _ _ hb.2) (Or.inl ?_)⟩
  · rw [hzeros]
    decide
  · rw [hones]
    decide

/-- Blocks with bounded runs make a word with bounded runs: no run crosses a seam. -/
theorem RunBlocks.bounded (h : RunBlocks m n x) : x.head? = some true ∧
    x.getLast? = some false ∧ RunsAtMost true m x ∧ RunsAtMost false n x := by
  induction h with
  | one ha hb =>
    exact ⟨head?_runBlock ha.1, getLast?_runBlock hb.1, runsAtMost_runBlock ha hb⟩
  | @cons a b rest ha hb _ ih =>
    obtain ⟨hhead, hlast, hones, hzeros⟩ := ih
    have hseam := getLast?_runBlock (a := a) hb.1
    refine ⟨?_, ?_, (runsAtMost_runBlock ha hb).1.append hones (Or.inl ?_),
      (runsAtMost_runBlock ha hb).2.append hzeros (Or.inr ?_)⟩
    · rw [List.head?_append, head?_runBlock ha.1]
      rfl
    · rw [List.getLast?_append, hlast]
      rfl
    · rw [hseam]
      decide
    · rw [hhead]
      decide

/-- A word begins with a run of each letter, perhaps an empty one. -/
theorem exists_replicate_append (c : Bool) (x : List Bool) :
    ∃ k rest, x = List.replicate k c ++ rest ∧ rest.head? ≠ some c := by
  induction x with
  | nil => exact ⟨0, [], rfl, by simp⟩
  | cons d x ih =>
    by_cases hd : d = c
    · obtain ⟨k, rest, rfl, hrest⟩ := ih
      exact ⟨k + 1, rest, by rw [hd, List.replicate_succ, List.cons_append], hrest⟩
    · exact ⟨0, d :: x, rfl, by simpa using hd⟩

/-- A bounded run in front is no longer than the bound. -/
theorem RunsAtMost.replicate_le {α : Type*} {b : α} {k n : Nat} {rest : List α}
    (h : RunsAtMost b n (List.replicate k b ++ rest)) : k ≤ n := by
  by_contra hlt
  obtain ⟨d, rfl⟩ : ∃ d, k = n + 1 + d := ⟨k - (n + 1), by omega⟩
  exact h ⟨[], List.replicate d b ++ rest, by
    rw [List.nil_append, ← List.append_assoc, ← List.replicate_add]⟩

/-- A word with bounded runs that begins with a one and ends with a zero falls into blocks. -/
theorem runBlocks_of_bounded (hhead : x.head? = some true) (hlast : x.getLast? = some false)
    (hones : RunsAtMost true m x) (hzeros : RunsAtMost false n x) : RunBlocks m n x := by
  induction hlen : x.length using Nat.strongRecOn generalizing x with
  | ind len ih =>
    obtain ⟨a, tail, rfl, htail⟩ := exists_replicate_append true x
    obtain ⟨b, rest, rfl, hrest⟩ := exists_replicate_append false tail
    have ha : 1 ≤ a := by
      by_contra hzero
      obtain rfl : a = 0 := by omega
      exact htail hhead
    have hsuffix : rest <:+ List.replicate a true ++ (List.replicate b false ++ rest) :=
      (List.suffix_append _ _).trans (List.suffix_append _ _)
    have hb : 1 ≤ b := by
      by_contra hzero
      obtain rfl : b = 0 := by omega
      cases rest with
      | nil =>
        rw [List.replicate_zero, List.append_nil, List.append_nil, List.getLast?_replicate,
          if_neg (by omega)] at hlast
        cases hlast
      | cons c rest =>
        cases c
        · exact hrest rfl
        · exact htail rfl
    have ham : a ≤ m := hones.replicate_le
    have hbn : b ≤ n := (hzeros.of_infix (List.suffix_append _ _).isInfix).replicate_le
    rw [← List.append_assoc]
    cases rest with
    | nil =>
      rw [List.append_nil]
      exact .one ⟨ha, ham⟩ ⟨hb, hbn⟩
    | cons c rest =>
      refine .cons ⟨ha, ham⟩ ⟨hb, hbn⟩ (ih _ ?_ ?_ ?_ (hones.of_infix hsuffix.isInfix)
        (hzeros.of_infix hsuffix.isInfix) rfl)
      · rw [← hlen, List.length_append, List.length_replicate]
        rw [List.length_append]
        omega
      · cases c
        · exact absurd rfl hrest
        · rfl
      · obtain ⟨d, hd⟩ := Option.isSome_iff_exists.mp
          (List.getLast?_isSome.mpr (List.cons_ne_nil c rest))
        rw [List.getLast?_append, List.getLast?_append, hd] at hlast
        rw [hd]
        exact hlast

/-- The pattern matches exactly the words with bounded runs that begin with a one and end with a
zero. -/
theorem rmatch_runPattern_iff : (runPattern m n).rmatch x = true ↔ x.head? = some true ∧
    x.getLast? = some false ∧ RunsAtMost true m x ∧ RunsAtMost false n x :=
  rmatch_runPattern.trans ⟨RunBlocks.bounded, fun ⟨hhead, hlast, hones, hzeros⟩ =>
    runBlocks_of_bounded hhead hlast hones hzeros⟩

end OldRadio.Library
