import Mathlib.Data.Multiset.AddSub
import OldRadio.Library.Transition

/-!
# Floods with a hold-off

A flood on a directed graph: a node that takes a copy sends one along each of
its links, unless it did so a short time ago, and copies are taken in the order
of their times. Each copy sent has a delay of its own, and copies that are due
at a deadline are lost. A node may send again when a copy comes in behind its
hold-off. If no walk to it is that much longer than another one, for any delays
that there may be, it never does.
-/

namespace OldRadio.Library

/-- Where a flood spreads. -/
structure FloodNet (V : Type*) where
  /-- One node hears another. -/
  link : V → V → Prop
  /-- The delays that a copy may have. -/
  delay : Nat → Prop
  /-- How long a node that has sent sends nothing. -/
  holdoff : Nat
  /-- Copies that are due at this time or later are lost. -/
  deadline : Nat

/-- The state of a flood. -/
structure Flood (V : Type*) where
  /-- Up to this time a node sends nothing. -/
  silent : V → Nat
  /-- The copies on their way, each with its node and its time. -/
  copies : Multiset (V × Nat)

/-- A copy that a node takes: where and when, and whether the node sends. -/
structure FloodTake (V : Type*) where
  /-- The node. -/
  node : V
  /-- The time. -/
  time : Nat
  /-- The node sends. -/
  sends : Bool

/-- The flood before its first copy is taken. -/
def Flood.start {V : Type*} (source : V) (t₀ : Nat) : Flood V where
  silent _ := 0
  copies := {(source, t₀)}

variable {V : Type*}

/-- A node takes a copy, one of those that are due first. -/
inductive FloodNet.Step [DecidableEq V] (N : FloodNet V) :
    Flood V → FloodTake V → Flood V → Prop where
  /-- The node is silent. -/
  | ignore {F : Flood V} {v : V} {a : Nat} {rest : Multiset (V × Nat)}
    (first : ∀ c ∈ F.copies, a ≤ c.2) (taken : F.copies = (v, a) ::ₘ rest)
    (silent : a ≤ F.silent v) : N.Step F ⟨v, a, false⟩ ⟨F.silent, rest⟩
  /-- The node sends a copy along each link. -/
  | send {F : Flood V} {v : V} {a : Nat} {rest new : Multiset (V × Nat)}
    (first : ∀ c ∈ F.copies, a ≤ c.2) (taken : F.copies = (v, a) ::ₘ rest)
    (awake : F.silent v < a) (d : V → Nat) (delays : ∀ u, N.link v u → N.delay (d u))
    (sent : ∀ c, c ∈ new ↔ N.link v c.1 ∧ c.2 = a + d c.1 ∧ c.2 < N.deadline) :
    N.Step F ⟨v, a, true⟩ ⟨Function.update F.silent v (a + N.holdoff), new + rest⟩

/-- The lengths of the walks from a node, when each link has a delay. -/
inductive Walk (link : V → V → Prop) (δ : V → V → Nat) (source : V) : V → Nat → Prop where
  /-- The walk that stays. -/
  | nil : Walk link δ source source 0
  /-- A walk and a link more. -/
  | snoc {u v : V} {p : Nat} (walk : Walk link δ source u p) (last : link u v) :
    Walk link δ source v (p + δ u v)

/-- Whatever the delays are, no walk to a node that ends in a link is longer than another walk to it
by more than the hold-off, if the part before the link is as short as it can be. -/
def FloodNet.Covered (N : FloodNet V) (source : V) : Prop :=
  ∀ δ : V → V → Nat, (∀ u v, N.link u v → N.delay (δ u v)) → ∀ u v p q, N.link u v →
    Walk N.link δ source v p → Walk N.link δ source u q →
      ∃ q', Walk N.link δ source u q' ∧ q' + δ u v ≤ p + N.holdoff

private theorem update_eq_some_iff {α : Type*} [DecidableEq V] {sent : V → Option α} {v u : V}
    {s r : α} (hnone : sent v = none) :
    Function.update sent v (some s) u = some r ↔ (u = v ∧ r = s) ∨ sent u = some r := by
  rcases eq_or_ne u v with rfl | hne
  · simp [hnone, eq_comm]
  · simp [hne]

/-! ## What has been sent -/

section Spread

variable {N : FloodNet V} {source : V} {t₀ : Nat} {sent : V → Option (Nat × (V → Nat))}
  {F : Flood V}

/-- The delays are those of the copies that were sent. -/
def Fits (sent : V → Option (Nat × (V → Nat))) (δ : V → V → Nat) : Prop :=
  ∀ u a d, sent u = some (a, d) → ∀ v, δ u v = d v

/-- A flood in which the nodes have sent once or not at all, with the times and the delays. -/
structure Spread (N : FloodNet V) (source : V) (t₀ : Nat)
    (sent : V → Option (Nat × (V → Nat))) (F : Flood V) : Prop where
  /-- The delays are possible. -/
  delays : ∀ u a d, sent u = some (a, d) → ∀ v, N.link u v → N.delay (d v)
  /-- The nodes that have sent are silent for a while. -/
  silent_eq : ∀ u, F.silent u = (sent u).elim 0 fun s => s.1 + N.holdoff
  /-- Nothing was sent before the flood began. -/
  since : ∀ u a d, sent u = some (a, d) → t₀ ≤ a
  /-- Nothing was sent behind a copy that is on its way. -/
  inOrder : ∀ u a d, sent u = some (a, d) → ∀ c ∈ F.copies, a ≤ c.2
  /-- A copy is the first one, or was sent. -/
  origin : ∀ c ∈ F.copies, (c = (source, t₀) ∧ sent source = none) ∨
    ∃ u a d, sent u = some (a, d) ∧ N.link u c.1 ∧ c.2 = a + d c.1 ∧ c.2 < N.deadline
  /-- The source sends first. -/
  begun : (F.copies = {(source, t₀)} ∧ sent source = none) ∨
    ∃ a d, sent source = some (a, d) ∧ a ≤ t₀
  /-- A copy is on its way, or its node has sent by then. -/
  heard : ∀ u a d, sent u = some (a, d) → ∀ v, N.link u v → a + d v < N.deadline →
    (v, a + d v) ∈ F.copies ∨ ∃ a' d', sent v = some (a', d') ∧ a' ≤ a + d v
  /-- A node sends at the end of a walk. -/
  walk : ∀ δ, Fits sent δ → ∀ u a d, sent u = some (a, d) →
    ∃ p, Walk N.link δ source u p ∧ a = t₀ + p

theorem Spread.start (N : FloodNet V) (source : V) (t₀ : Nat) :
    Spread N source t₀ (fun _ => none) (Flood.start source t₀) where
  delays _ _ _ h := by cases h
  silent_eq _ := rfl
  since _ _ _ h := by cases h
  inOrder _ _ _ h := by cases h
  origin c hc := Or.inl ⟨Multiset.mem_singleton.mp hc, rfl⟩
  begun := Or.inl ⟨rfl, rfl⟩
  heard _ _ _ h := by cases h
  walk _ _ _ _ _ h := by cases h

namespace Spread

variable (h : Spread N source t₀ sent F)
include h

/-- At the end of a walk the node has sent, or a copy is on its way still, or all are lost. -/
theorem frontier {δ : V → V → Nat} (hδ : Fits sent δ) {u : V} {p : Nat}
    (hwalk : Walk N.link δ source u p) :
    (∃ a d, sent u = some (a, d) ∧ a ≤ t₀ + p) ∨ (∃ c ∈ F.copies, c.2 ≤ t₀ + p) ∨
      N.deadline ≤ t₀ + p := by
  induction hwalk with
  | nil =>
    rcases h.begun with ⟨hcopies, -⟩ | ⟨a, d, hsent, hle⟩
    · exact Or.inr (Or.inl ⟨_, hcopies ▸ Multiset.mem_singleton_self _, le_rfl⟩)
    · exact Or.inl ⟨a, d, hsent, hle⟩
  | @snoc u v p _ hlink ih =>
    rcases ih with ⟨a, d, hsent, hle⟩ | ⟨c, hc, hle⟩ | hlost
    · rw [hδ u a d hsent v]
      by_cases hlost : N.deadline ≤ a + d v
      · exact Or.inr (Or.inr (by omega))
      rcases h.heard u a d hsent v hlink (by omega) with hcopy | ⟨a', d', hsent', hle'⟩
      · exact Or.inr (Or.inl ⟨_, hcopy, by dsimp only; omega⟩)
      · exact Or.inl ⟨a', d', hsent', by omega⟩
    · exact Or.inr (Or.inl ⟨c, hc, by omega⟩)
    · exact Or.inr (Or.inr (by omega))

/-- A node that has sent in time has sent no later than at the end of any walk. -/
theorem sent_le {δ : V → V → Nat} (hδ : Fits sent δ) {u : V} {a q : Nat} {d : V → Nat}
    (hsent : sent u = some (a, d)) (hlost : a < N.deadline) (hwalk : Walk N.link δ source u q) :
    a ≤ t₀ + q := by
  rcases h.frontier hδ hwalk with ⟨a', d', hsent', hle⟩ | ⟨c, hc, hle⟩ | hle
  · rw [hsent] at hsent'
    cases hsent'
    exact hle
  · exact (h.inOrder u a d hsent c hc).trans hle
  · omega

/-- In a net that is covered no copy comes in behind the hold-off of its node. -/
theorem copy_le (hcovered : N.Covered source) {v : V} {b a : Nat} {d : V → Nat}
    (hcopy : (v, b) ∈ F.copies) (hsent : sent v = some (a, d)) : b ≤ a + N.holdoff := by
  rcases h.origin _ hcopy with ⟨hfirst, hnone⟩ | ⟨u, a', d', hsent', hlink, hb, hlost⟩
  · cases hfirst
    rw [hnone] at hsent
    cases hsent
  · dsimp only at hlink hb hlost
    subst hb
    -- links that have not been used get the delay of this copy
    let δ : V → V → Nat := fun x y => (sent x).elim (d' v) fun s => s.2 y
    have hfits : Fits sent δ := fun x a d hx y => by simp only [δ, hx, Option.elim_some]
    have hdelays : ∀ x y, N.link x y → N.delay (δ x y) := fun x y hxy => by
      cases hx : sent x with
      | none =>
        simp only [δ, hx, Option.elim_none]
        exact h.delays u a' d' hsent' v hlink
      | some s =>
        simp only [δ, hx, Option.elim_some]
        exact h.delays x s.1 s.2 hx y hxy
    obtain ⟨p, hp, ha⟩ := h.walk δ hfits v a d hsent
    obtain ⟨q, hq, -⟩ := h.walk δ hfits u a' d' hsent'
    obtain ⟨q', hq', hle⟩ := hcovered δ hdelays u v p q hlink hp hq
    have hearly := h.sent_le hfits hsent' (by omega) hq'
    rw [hfits u a' d' hsent' v] at hle
    omega

/-- A copy for a node that has sent may be taken. -/
theorem drop {v : V} {b : Nat} {rest : Multiset (V × Nat)} (htaken : F.copies = (v, b) ::ₘ rest)
    (hsent : ∃ a d, sent v = some (a, d)) : Spread N source t₀ sent ⟨F.silent, rest⟩ := by
  obtain ⟨a, d, hsent⟩ := hsent
  have hrest : ∀ c ∈ rest, c ∈ F.copies := fun c hc => htaken ▸ Multiset.mem_cons_of_mem hc
  have hle : a ≤ b := h.inOrder v a d hsent (v, b) (htaken ▸ Multiset.mem_cons_self _ _)
  have hbegun : sent source ≠ none := fun hnone => by
    rcases h.begun with ⟨hcopies, -⟩ | ⟨a, d, hsource, -⟩
    · rw [hcopies, Multiset.singleton_eq_cons_iff] at htaken
      cases htaken.1
      rw [hnone] at hsent
      cases hsent
    · rw [hnone] at hsource
      cases hsource
  refine ⟨h.delays, h.silent_eq, h.since, fun u a d hu c hc => h.inOrder u a d hu c (hrest c hc),
    fun c hc => h.origin c (hrest c hc), Or.inr ?_, fun u a' d' hu y hlink hlost => ?_, h.walk⟩
  · exact h.begun.resolve_left fun hnone => hbegun hnone.2
  · rcases h.heard u a' d' hu y hlink hlost with hcopy | hsent'
    · rw [htaken] at hcopy
      rcases Multiset.mem_cons.mp hcopy with heq | hcopy
      · cases heq
        exact Or.inr ⟨a, d, hsent, hle⟩
      · exact Or.inl hcopy
    · exact Or.inr hsent'

/-- A node that has not sent yet sends the first copy that it takes. -/
theorem add [DecidableEq V] {v : V} {b : Nat} {rest new : Multiset (V × Nat)} {d : V → Nat}
    (htaken : F.copies = (v, b) ::ₘ rest) (hfirst : ∀ c ∈ F.copies, b ≤ c.2)
    (hnone : sent v = none) (hdelays : ∀ u, N.link v u → N.delay (d u))
    (hnew : ∀ c, c ∈ new ↔ N.link v c.1 ∧ c.2 = b + d c.1 ∧ c.2 < N.deadline) :
    Spread N source t₀ (Function.update sent v (some (b, d)))
      ⟨Function.update F.silent v (b + N.holdoff), new + rest⟩ := by
  have hcopy : (v, b) ∈ F.copies := htaken ▸ Multiset.mem_cons_self _ _
  have hrest : ∀ c ∈ rest, c ∈ F.copies := fun c hc => htaken ▸ Multiset.mem_cons_of_mem hc
  have hsent := fun u a e => update_eq_some_iff (s := (b, d)) hnone (u := u) (r := (a, e))
  have hkept : ∀ u a e, sent u = some (a, e) →
      Function.update sent v (some (b, d)) u = some (a, e) := fun u a e hu =>
    (hsent u a e).mpr (Or.inr hu)
  constructor
  case delays =>
    intro u a e hu
    rcases (hsent u a e).mp hu with ⟨rfl, heq⟩ | hu
    · cases heq
      exact hdelays
    · exact h.delays u a e hu
  case silent_eq =>
    intro u
    dsimp only
    rcases eq_or_ne u v with rfl | hne
    · rw [Function.update_self, Function.update_self, Option.elim_some]
    · rw [Function.update_of_ne hne, Function.update_of_ne hne, h.silent_eq]
  case since =>
    intro u a e hu
    rcases (hsent u a e).mp hu with ⟨-, heq⟩ | hu
    · cases heq
      rcases h.origin _ hcopy with ⟨heq, -⟩ | ⟨x, a', d', hx, -, heq, -⟩
      · cases heq
        exact le_rfl
      · have hle := h.since x a' d' hx
        dsimp only at heq
        omega
    · exact h.since u a e hu
  case inOrder =>
    intro u a e hu c hc
    rcases (hsent u a e).mp hu with ⟨-, heq⟩ | hu
    · cases heq
      rcases Multiset.mem_add.mp hc with hc | hc
      · exact ((hnew c).mp hc).2.1 ▸ Nat.le_add_right ..
      · exact hfirst c (hrest c hc)
    · rcases Multiset.mem_add.mp hc with hc | hc
      · have hle := h.inOrder u a e hu _ hcopy
        have heq := ((hnew c).mp hc).2.1
        dsimp only at hle
        omega
      · exact h.inOrder u a e hu c (hrest c hc)
  case origin =>
    intro c hc
    rcases Multiset.mem_add.mp hc with hc | hc
    · exact Or.inr ⟨v, b, d, Function.update_self .., (hnew c).mp hc⟩
    · rcases h.origin c (hrest c hc) with ⟨-, hsource⟩ | ⟨u, a, e, hu, hcopy⟩
      · -- before the source has sent there is one copy only
        rcases h.begun with ⟨hcopies, -⟩ | ⟨a, e, hsent, -⟩
        · rw [hcopies, Multiset.singleton_eq_cons_iff] at htaken
          rw [htaken.2] at hc
          exact absurd hc (Multiset.notMem_zero c)
        · rw [hsource] at hsent
          cases hsent
      · exact Or.inr ⟨u, a, e, hkept u a e hu, hcopy⟩
  case begun =>
    rcases h.begun with ⟨hcopies, -⟩ | ⟨a, e, hsent, hle⟩
    · rw [hcopies, Multiset.singleton_eq_cons_iff] at htaken
      cases htaken.1
      exact Or.inr ⟨_, d, Function.update_self .., le_rfl⟩
    · exact Or.inr ⟨a, e, hkept _ a e hsent, hle⟩
  case heard =>
    intro u a e hu y hlink hlost
    rcases (hsent u a e).mp hu with ⟨rfl, heq⟩ | hu
    · cases heq
      exact Or.inl (Multiset.mem_add.mpr (Or.inl ((hnew _).mpr ⟨hlink, rfl, hlost⟩)))
    · rcases h.heard u a e hu y hlink hlost with hstill | ⟨a', d', hy, hle⟩
      · rw [htaken] at hstill
        rcases Multiset.mem_cons.mp hstill with heq | hstill
        · cases heq
          exact Or.inr ⟨_, d, Function.update_self .., le_rfl⟩
        · exact Or.inl (Multiset.mem_add.mpr (Or.inr hstill))
      · exact Or.inr ⟨a', d', hkept y a' d' hy, hle⟩
  case walk =>
    intro δ hδ u a e hu
    have hfits : Fits sent δ := fun x a' d' hx => hδ x a' d' (hkept x a' d' hx)
    rcases (hsent u a e).mp hu with ⟨rfl, heq⟩ | hu
    · cases heq
      rcases h.origin _ hcopy with ⟨heq, -⟩ | ⟨x, a', d', hx, hlink, heq, -⟩
      · cases heq
        exact ⟨0, .nil, rfl⟩
      · obtain ⟨p, hp, ha⟩ := h.walk δ hfits x a' d' hx
        refine ⟨p + δ x u, hp.snoc hlink, ?_⟩
        rw [hfits x a' d' hx u]
        dsimp only at heq
        omega
    · exact h.walk δ hfits u a e hu

/-- In a net that is covered only nodes that have not sent yet send. -/
theorem step [DecidableEq V] (ht₀ : 0 < t₀) (hcovered : N.Covered source) {l : FloodTake V}
    {F' : Flood V} (hstep : N.Step F l F') :
    ∃ sent', Spread N source t₀ sent' F' ∧ ∀ v, (sent' v).isSome.toNat =
      (sent v).isSome.toNat + if l.node = v ∧ l.sends = true then 1 else 0 := by
  cases hstep with
  | @ignore v b rest hfirst htaken hsilent =>
    have hcopy : (v, b) ∈ F.copies := htaken ▸ Multiset.mem_cons_self _ _
    refine ⟨sent, h.drop htaken ?_, fun u => by simp⟩
    cases hv : sent v with
    | some s => exact ⟨s.1, s.2, rfl⟩
    | none =>
      -- a node that has not sent is not silent, since copies come in behind time 0
      rw [h.silent_eq, hv, Option.elim_none] at hsilent
      rcases h.origin _ hcopy with ⟨heq, -⟩ | ⟨u, a, d, hu, -, heq, -⟩
      · cases heq
        omega
      · have hsince := h.since u a d hu
        dsimp only at heq
        omega
  | @send v b rest new hfirst htaken hawake d hdelays hnew =>
    have hcopy : (v, b) ∈ F.copies := htaken ▸ Multiset.mem_cons_self _ _
    have hnone : sent v = none := by
      cases hv : sent v with
      | none => rfl
      | some s =>
        have hle := h.copy_le hcovered hcopy hv
        rw [h.silent_eq, hv, Option.elim_some] at hawake
        omega
    refine ⟨_, h.add htaken hfirst hnone hdelays hnew, fun u => ?_⟩
    rcases eq_or_ne u v with rfl | hne
    · simp [hnone]
    · simp [hne, hne.symm]

end Spread

end Spread

/-! ## Whole floods -/

section Runs

variable [DecidableEq V] {N : FloodNet V} {source : V} {t₀ : Nat} {taken : List (FloodTake V)}
  {F : Flood V}

/-- How often a node sends. -/
def sendings (v : V) (taken : List (FloodTake V)) : Nat :=
  taken.countP fun l => l.node = v ∧ l.sends = true

/-- A flood that begins at time 0 is not sent at all. -/
theorem FloodNet.sendings_eq_zero (hrun : Run N.Step (Flood.start source 0) taken F) (v : V) :
    sendings v taken = 0 := by
  have hstill : sendings v taken = 0 ∧ ∀ c ∈ F.copies, c.2 = 0 := by
    refine hrun.keeps_labels (I := fun taken F => sendings v taken = 0 ∧ ∀ c ∈ F.copies, c.2 = 0)
      (fun taken F l F' hF hstep => ?_) ⟨rfl, fun c hc => ?_⟩
    · cases hstep with
      | ignore hfirst htaken =>
        refine ⟨by simpa [sendings] using hF.1, fun c hc => hF.2 c ?_⟩
        exact htaken ▸ Multiset.mem_cons_of_mem hc
      | send hfirst htaken hawake =>
        have hzero := hF.2 _ (htaken ▸ Multiset.mem_cons_self _ _)
        dsimp only at hzero
        omega
    · rw [Multiset.mem_singleton.mp hc]
  exact hstill.1

/-- In a net that is covered every node sends a flood at most once. -/
theorem FloodNet.sendings_le_one (hcovered : N.Covered source)
    (hrun : Run N.Step (Flood.start source t₀) taken F) (v : V) : sendings v taken ≤ 1 := by
  rcases Nat.eq_zero_or_pos t₀ with rfl | ht₀
  · exact (FloodNet.sendings_eq_zero hrun v).trans_le (Nat.zero_le 1)
  have hspread : ∃ sent, Spread N source t₀ sent F ∧
      ∀ v, sendings v taken = (sent v).isSome.toNat :=
    hrun.keeps_labels
      (I := fun taken F => ∃ sent, Spread N source t₀ sent F ∧
        ∀ v, sendings v taken = (sent v).isSome.toNat)
      (fun taken F l F' hF hstep => by
        obtain ⟨sent, hF, hcount⟩ := hF
        obtain ⟨sent', hF', hcount'⟩ := hF.step ht₀ hcovered hstep
        refine ⟨sent', hF', fun v => ?_⟩
        rw [hcount', ← hcount, sendings, sendings, List.countP_append, List.countP_singleton]
        simp)
      ⟨_, Spread.start N source t₀, fun _ => rfl⟩
  obtain ⟨sent, -, hcount⟩ := hspread
  rw [hcount]
  exact Bool.toNat_le _

omit [DecidableEq V] in
/-- Where links go both ways, it is enough that a copy may come back within the hold-off. -/
theorem FloodNet.covered_of_twoWay (htwoWay : ∀ u v, N.link u v → N.link v u)
    (hback : ∀ d d', N.delay d → N.delay d' → d + d' ≤ N.holdoff) (source : V) :
    N.Covered source := by
  intro δ hδ u v p q hlink hp _
  have hdelays := hback (δ v u) (δ u v) (hδ v u (htwoWay u v hlink)) (hδ u v hlink)
  exact ⟨p + δ v u, hp.snoc (htwoWay u v hlink), by omega⟩

end Runs

end OldRadio.Library
