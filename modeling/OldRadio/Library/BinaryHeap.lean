import Mathlib.Data.Multiset.Range
import Mathlib.Logic.Equiv.Basic
import Mathlib.Order.Basic

/-!
# Binary heaps in an array

The first `n` cells of an array, seen as a function, form a heap when no cell's
key is below its parent's. Sifting up and sifting down are sequences of
exchanges, so they keep the contents; each restores the order when the cell it
starts at is the only one out of place. The smallest key is at the root.
-/

namespace OldRadio.Library

/-- The parent of a cell other than the root. -/
def heapParent (i : Nat) : Nat := (i + 1) / 2 - 1

/-- The left child of a cell. -/
def heapLeft (i : Nat) : Nat := (i + 1) * 2 - 1

/-- The right child of a cell. -/
def heapRight (i : Nat) : Nat := (i + 1) * 2

theorem heapParent_lt {i : Nat} (h : 0 < i) : heapParent i < i := by
  unfold heapParent
  omega

theorem lt_heapLeft (i : Nat) : i < heapLeft i := by
  unfold heapLeft
  omega

theorem lt_heapRight (i : Nat) : i < heapRight i := by
  unfold heapRight
  omega

/-- The children of a cell are exactly the cells it is the parent of. -/
theorem heapParent_eq_iff {c i : Nat} (h : 0 < c) :
    heapParent c = i ↔ c = heapLeft i ∨ c = heapRight i := by
  unfold heapParent heapLeft heapRight
  omega

section Exchange

variable {α : Type*}

/-- The array with two cells exchanged. -/
def exchange (a : Nat → α) (i j : Nat) : Nat → α := fun k => a (Equiv.swap i j k)

theorem exchange_apply (a : Nat → α) (i j k : Nat) :
    exchange a i j k = if k = i then a j else if k = j then a i else a k := by
  rw [exchange, Equiv.swap_apply_def]
  split
  · rfl
  · split <;> rfl

/-- The contents of the first `n` cells. -/
def contents (a : Nat → α) (n : Nat) : Multiset α := (Multiset.range n).map a

@[simp] theorem contents_zero (a : Nat → α) : contents a 0 = 0 := rfl

theorem contents_succ (a : Nat → α) (n : Nat) : contents a (n + 1) = a n ::ₘ contents a n := by
  rw [contents, Multiset.range_succ, Multiset.map_cons, contents]

@[simp] theorem card_contents (a : Nat → α) (n : Nat) : (contents a n).card = n := by
  simp [contents]

theorem mem_contents {a : Nat → α} {n : Nat} {x : α} :
    x ∈ contents a n ↔ ∃ i < n, a i = x := by
  simp [contents]

theorem contents_congr {a b : Nat → α} {n : Nat} (h : ∀ i < n, a i = b i) :
    contents a n = contents b n :=
  Multiset.map_congr rfl fun i hi => h i (Multiset.mem_range.mp hi)

/-- Exchanging two cells keeps the contents. -/
theorem contents_exchange {a : Nat → α} {n i j : Nat} (hi : i < n) (hj : j < n) :
    contents (exchange a i j) n = contents a n := by
  have hmap : (Multiset.range n).map (Equiv.swap i j) = Multiset.range n := by
    refine (Multiset.Nodup.ext ?_ (Multiset.nodup_range n)).mpr fun k => ?_
    · exact (Multiset.nodup_range n).map (Equiv.injective _)
    · have hlt : ∀ k, k < n → Equiv.swap i j k < n := by
        intro k hk
        rw [Equiv.swap_apply_def]
        split
        · exact hj
        · split
          · exact hi
          · exact hk
      rw [Multiset.mem_map, Multiset.mem_range]
      constructor
      · rintro ⟨m, hm, rfl⟩
        exact hlt m (Multiset.mem_range.mp hm)
      · intro hk
        exact ⟨Equiv.swap i j k, Multiset.mem_range.mpr (hlt k hk), Equiv.swap_apply_self ..⟩
  calc contents (exchange a i j) n
      = ((Multiset.range n).map (Equiv.swap i j)).map a := by
        rw [Multiset.map_map]
        rfl
    _ = contents a n := by rw [hmap, contents]

end Exchange

section Order

variable {α κ : Type*} [LinearOrder κ] (key : α → κ)

/-- No cell's key is below its parent's. -/
def HeapOrdered (a : Nat → α) (n : Nat) : Prop :=
  ∀ i, 0 < i → i < n → key (a (heapParent i)) ≤ key (a i)

variable {key}

/-- The root of a heap holds a smallest key. -/
theorem HeapOrdered.root_le {a : Nat → α} {n : Nat} (h : HeapOrdered key a n) :
    ∀ i < n, key (a 0) ≤ key (a i) := by
  intro i
  induction i using Nat.strongRecOn with
  | ind i ih =>
    intro hi
    rcases Nat.eq_zero_or_pos i with rfl | hpos
    · exact le_rfl
    · have hp := heapParent_lt hpos
      exact (ih _ hp (by omega)).trans (h i hpos hi)

/-- Only the keys of the first `n` cells matter. -/
theorem HeapOrdered.congr {a b : Nat → α} {n : Nat} (h : HeapOrdered key a n)
    (he : ∀ i < n, a i = b i) : HeapOrdered key b n := by
  intro i hpos hi
  have hp := heapParent_lt hpos
  rw [← he i hi, ← he _ (by omega)]
  exact h i hpos hi

/-! ## Sifting up -/

variable (key)

/-- The order while sifting up at `i`: only `i` may be below its parent, and its
children are not below that parent. -/
structure UpOrdered (a : Nat → α) (n i : Nat) : Prop where
  /-- Every other cell is in order with its parent. -/
  other : ∀ j, 0 < j → j < n → j ≠ i → key (a (heapParent j)) ≤ key (a j)
  /-- The children of `i` are in order with the parent of `i`. -/
  grand : 0 < i → ∀ j, 0 < j → j < n → heapParent j = i → key (a (heapParent i)) ≤ key (a j)

/-- Exchange a cell with its parent as long as its key is below the parent's. -/
def siftUp : Nat → (Nat → α) → Nat → Nat → α
  | 0, a, _ => a
  | fuel + 1, a, i =>
    if i = 0 then a
    else if key (a i) < key (a (heapParent i)) then
      siftUp fuel (exchange a i (heapParent i)) (heapParent i)
    else a

variable {key}

theorem UpOrdered.heapOrdered {a : Nat → α} {n i : Nat} (h : UpOrdered key a n i)
    (hi : 0 < i → key (a (heapParent i)) ≤ key (a i)) : HeapOrdered key a n := by
  intro j hpos hj
  rcases eq_or_ne j i with rfl | hne
  · exact hi hpos
  · exact h.other j hpos hj hne

/-- Exchanging with a larger parent moves the disorder to the parent. -/
theorem UpOrdered.exchange {a : Nat → α} {n i : Nat} (h : UpOrdered key a n i) (hpos : 0 < i)
    (hi : i < n) (hlt : key (a i) < key (a (heapParent i))) :
    UpOrdered key (exchange a i (heapParent i)) n (heapParent i) := by
  have hp := heapParent_lt hpos
  constructor
  · intro j hj hjn hne
    rw [exchange_apply, exchange_apply, if_neg hne]
    rcases eq_or_ne j i with rfl | hji
    · rw [if_pos rfl, if_neg hne.symm, if_pos rfl]
      exact hlt.le
    · rw [if_neg hji]
      by_cases hpi : heapParent j = i
      · rw [if_pos hpi]
        exact h.grand hpos j hj hjn hpi
      · rw [if_neg hpi]
        split
        · rename_i hsib
          have := h.other j hj hjn hji
          rw [hsib] at this
          exact hlt.le.trans this
        · exact h.other j hj hjn hji
  · intro hppos j hj hjn hpj
    have hpp := heapParent_lt hppos
    have hup := h.other _ hppos (by omega) (by omega)
    rw [exchange_apply, exchange_apply, if_neg (by omega), if_neg (by omega)]
    rcases eq_or_ne j i with rfl | hji
    · rw [if_pos rfl]
      exact hup
    · have hne : j ≠ heapParent i := by
        have := heapParent_lt hj
        omega
      rw [if_neg hji, if_neg hne]
      have := h.other j hj hjn hji
      rw [hpj] at this
      exact hup.trans this

/-- Sifting up keeps the contents. -/
theorem contents_siftUp {fuel n i : Nat} {a : Nat → α} (hi : i < n) :
    contents (siftUp key fuel a i) n = contents a n := by
  induction fuel generalizing a i with
  | zero => rfl
  | succ fuel ih =>
    rw [siftUp]
    split
    · rfl
    · rename_i h0
      have hp := heapParent_lt (Nat.pos_of_ne_zero h0)
      split
      · rw [ih (by omega), contents_exchange hi (by omega)]
      · rfl

/-- Sifting up from the only cell out of place restores the heap. -/
theorem heapOrdered_siftUp {fuel n i : Nat} {a : Nat → α} (h : UpOrdered key a n i) (hi : i < n)
    (hfuel : i ≤ fuel) : HeapOrdered key (siftUp key fuel a i) n := by
  induction fuel generalizing a i with
  | zero => exact h.heapOrdered fun hpos => by omega
  | succ fuel ih =>
    rw [siftUp]
    split
    · exact h.heapOrdered fun hpos => by omega
    · rename_i h0
      have hpos := Nat.pos_of_ne_zero h0
      have hp := heapParent_lt hpos
      split
      · rename_i hlt
        exact ih (h.exchange hpos hi hlt) (by omega) (by omega)
      · rename_i hge
        exact h.heapOrdered fun _ => not_lt.mp hge

/-! ## Sifting down -/

variable (key)

/-- The order while sifting down at `i`: only the children of `i` may be below
it, and they are not below its parent. -/
structure DownOrdered (a : Nat → α) (n i : Nat) : Prop where
  /-- Every cell not below `i` is in order with its parent. -/
  other : ∀ j, 0 < j → j < n → heapParent j ≠ i → key (a (heapParent j)) ≤ key (a j)
  /-- The children of `i` are in order with the parent of `i`. -/
  grand : 0 < i → ∀ j, 0 < j → j < n → heapParent j = i → key (a (heapParent i)) ≤ key (a j)

/-- The cell with the smallest key among `i` and its children in the heap. -/
def smallest (n : Nat) (a : Nat → α) (i : Nat) : Nat :=
  let x := if heapLeft i < n ∧ key (a (heapLeft i)) < key (a i) then heapLeft i else i
  if heapRight i < n ∧ key (a (heapRight i)) < key (a x) then heapRight i else x

/-- Exchange a cell with its smallest child as long as that child's key is below its own. -/
def siftDown (n : Nat) : Nat → (Nat → α) → Nat → Nat → α
  | 0, a, _ => a
  | fuel + 1, a, i =>
    if smallest key n a i = i then a
    else siftDown n fuel (exchange a i (smallest key n a i)) (smallest key n a i)

theorem smallest_le_self (n : Nat) (a : Nat → α) (i : Nat) :
    key (a (smallest key n a i)) ≤ key (a i) := by
  unfold smallest
  dsimp only
  split_ifs with hl hr hr
  · exact hr.2.le.trans hl.2.le
  · exact hl.2.le
  · exact hr.2.le
  · exact le_rfl

/-- The smallest of a cell and its children is not above any of the children. -/
theorem smallest_le_child {n i j : Nat} (a : Nat → α) (hj : j < n) (hpos : 0 < j)
    (hp : heapParent j = i) : key (a (smallest key n a i)) ≤ key (a j) := by
  unfold smallest
  dsimp only
  rcases (heapParent_eq_iff hpos).mp hp with rfl | rfl
  · split_ifs with hl hr hr
    · exact hr.2.le
    · exact le_rfl
    · exact hr.2.le.trans (not_lt.mp fun h => hl ⟨hj, h⟩)
    · exact not_lt.mp fun h => hl ⟨hj, h⟩
  · split_ifs with hl hr hr
    · exact le_rfl
    · exact not_lt.mp fun h => hr ⟨hj, h⟩
    · exact le_rfl
    · exact not_lt.mp fun h => hr ⟨hj, h⟩

/-- The smallest cell is the cell itself or one of its children in the heap. -/
theorem smallest_cases (n : Nat) (a : Nat → α) (i : Nat) :
    smallest key n a i = i ∨ (heapParent (smallest key n a i) = i ∧
      i < smallest key n a i ∧ smallest key n a i < n) := by
  have hl := lt_heapLeft i
  have hr := lt_heapRight i
  have hpl : heapParent (heapLeft i) = i := (heapParent_eq_iff (by omega)).mpr (Or.inl rfl)
  have hpr : heapParent (heapRight i) = i := (heapParent_eq_iff (by omega)).mpr (Or.inr rfl)
  unfold smallest
  dsimp only
  split_ifs with h1 h2 h2
  · exact Or.inr ⟨hpr, hr, h2.1⟩
  · exact Or.inr ⟨hpl, hl, h1.1⟩
  · exact Or.inr ⟨hpr, hr, h2.1⟩
  · exact Or.inl rfl

variable {key}

/-- A cell not above its children ends the sifting. -/
theorem DownOrdered.heapOrdered {a : Nat → α} {n i : Nat} (h : DownOrdered key a n i)
    (hi : smallest key n a i = i) : HeapOrdered key a n := by
  intro j hpos hj
  by_cases hp : heapParent j = i
  · have := smallest_le_child key a hj hpos hp
    rwa [hi, ← hp] at this
  · exact h.other j hpos hj hp

/-- Exchanging with the smallest child moves the disorder to that child. -/
theorem DownOrdered.exchange {a : Nat → α} {n i x : Nat} (h : DownOrdered key a n i)
    (hx : smallest key n a i = x) (hp : heapParent x = i) (hix : i < x) (hxn : x < n) :
    DownOrdered key (exchange a i x) n x := by
  constructor
  · intro j hpos hj hpj
    rw [exchange_apply, exchange_apply]
    rcases eq_or_ne j i with rfl | hji
    · have hpi := heapParent_lt hpos
      rw [if_pos rfl, if_neg (by omega), if_neg (by omega)]
      exact h.grand hpos x (by omega) hxn hp
    · rw [if_neg hji, if_neg hpj]
      by_cases hpji : heapParent j = i
      · rw [if_pos hpji]
        split
        · rename_i hjx
          rw [← hx]
          exact smallest_le_self key n a i
        · have := smallest_le_child key a hj hpos hpji
          rwa [hx] at this
      · rw [if_neg hpji]
        split
        · rename_i hjx
          exact absurd (hjx ▸ hp) hpji
        · exact h.other j hpos hj hpji
  · intro _ j hpos hj hpj
    have hxj := heapParent_lt hpos
    rw [exchange_apply, exchange_apply, hp, if_pos rfl, if_neg (by omega), if_neg (by omega)]
    have := h.other j hpos hj (by omega)
    rwa [hpj] at this

/-- Sifting down keeps the contents. -/
theorem contents_siftDown {fuel n i : Nat} {a : Nat → α} (hi : i < n) :
    contents (siftDown key n fuel a i) n = contents a n := by
  induction fuel generalizing a i with
  | zero => rfl
  | succ fuel ih =>
    rw [siftDown]
    split
    · rfl
    · rename_i hne
      obtain ⟨_, _, hlt⟩ := (smallest_cases key n a i).resolve_left hne
      rw [ih hlt, contents_exchange hi hlt]

/-- Sifting down from the only cell above its children restores the heap. -/
theorem heapOrdered_siftDown {fuel n i : Nat} {a : Nat → α} (h : DownOrdered key a n i)
    (hfuel : n ≤ i + fuel) : HeapOrdered key (siftDown key n fuel a i) n := by
  induction fuel generalizing a i with
  | zero =>
    refine h.heapOrdered ((smallest_cases key n a i).resolve_right fun hx => ?_)
    omega
  | succ fuel ih =>
    rw [siftDown]
    split
    · rename_i heq
      exact h.heapOrdered heq
    · rename_i hne
      obtain ⟨hp, hix, hlt⟩ := (smallest_cases key n a i).resolve_left hne
      exact ih (h.exchange rfl hp hix hlt) (by omega)

end Order

end OldRadio.Library
