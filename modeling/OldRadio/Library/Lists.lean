import Mathlib.Data.List.Basic
import Mathlib.Data.List.Forall2

/-!
# List recursion by chunks

A loop that consumes `k` elements a turn follows neither the constructors of a
list nor its length one by one. `chunkInduction` is its induction principle: the
lists shorter than a chunk, and a full chunk in front of a list already done.

`beforeWithin` is what a reader looks for that takes a stream in pieces of any
size: the elements before the first stop mark, if the mark comes within a bound.
Its value on a piece in front of a rest is what makes the pieces irrelevant.

`forall_set` is for a list that is updated in place: what holds of each element
at its position is kept by writing an element it holds of, and what is counted
changes with that element only. Where two lists agree position by position,
`take_eq_of_getElem?` and `drop_eq_of_getElem?` read off equal parts.
`mem_takeWhile_of_pairwise` finds in front what a property holds of in a list that
is in order. `forall₂_range` reads off what holds of each element of a list that is made
position by position, and `flatMap_range_mul` makes one loop of the loops over
the rows and the columns of a rectangle.
-/

namespace OldRadio.Library

/-- What a property holds of is in front, if it holds of all that stand before what it holds of. -/
theorem mem_takeWhile_of_pairwise {α : Type*} {p : α → Bool} {xs : List α} {x : α}
    (h : xs.Pairwise fun y z => p z = true → p y = true) (hx : x ∈ xs) (hp : p x = true) :
    x ∈ xs.takeWhile p := by
  induction xs with
  | nil => cases hx
  | cons y ys ih =>
    obtain ⟨hfront, hrest⟩ := List.pairwise_cons.mp h
    rcases List.mem_cons.mp hx with rfl | hmem
    · rw [List.takeWhile_cons_of_pos hp]
      exact List.mem_cons_self
    · rw [List.takeWhile_cons_of_pos (hfront x hmem hp)]
      exact List.mem_cons_of_mem _ (ih hrest hmem)

/-- A property of the elements and their positions is kept by writing an element that has it. -/
theorem forall_set {α : Type*} {P : Nat → α → Prop} {xs : List α}
    (h : ∀ i x, xs[i]? = some x → P i x) {i : Nat} {y : α} (hy : P i y) (j : Nat) (x : α)
    (hx : (xs.set i y)[j]? = some x) : P j x := by
  rw [List.getElem?_set] at hx
  split at hx
  · rename_i hij
    subst hij
    split at hx
    · cases hx
      exact hy
    · cases hx
  · exact h j x hx

/-- Lists that agree before a position have the same first elements. -/
theorem take_eq_of_getElem? {α : Type*} {l l' : List α} {i : Nat}
    (h : ∀ j < i, l[j]? = l'[j]?) : l.take i = l'.take i := by
  refine List.ext_getElem? fun j => ?_
  rw [List.getElem?_take, List.getElem?_take]
  split
  · exact h j ‹_›
  · rfl

/-- Lists that agree from a position on have the same last elements. -/
theorem drop_eq_of_getElem? {α : Type*} {l l' : List α} {i : Nat}
    (h : ∀ j, i ≤ j → l[j]? = l'[j]?) : l.drop i = l'.drop i := by
  refine List.ext_getElem? fun j => ?_
  rw [List.getElem?_drop, List.getElem?_drop]
  exact h (i + j) (Nat.le_add_right i j)

/-- An element that is counted only if what is put in its place is. -/
theorem countP_le_countP_set {α : Type*} {p : α → Bool} {l : List α} {i : Nat} {a b : α}
    (h : l[i]? = some a) (hab : p a = true → p b = true) : l.countP p ≤ (l.set i b).countP p := by
  obtain ⟨hlt, rfl⟩ := List.getElem?_eq_some_iff.mp h
  rw [List.countP_set hlt]
  by_cases ha : p l[i] = true
  · rw [if_pos ha, if_pos (hab ha)]
    omega
  · rw [if_neg ha]
    omega

/-- An element that is counted in the place of one that is not. -/
theorem countP_set_of_not {α : Type*} {p : α → Bool} {l : List α} {i : Nat} {a b : α}
    (h : l[i]? = some a) (ha : ¬ p a = true) (hb : p b = true) :
    (l.set i b).countP p = l.countP p + 1 := by
  obtain ⟨hlt, rfl⟩ := List.getElem?_eq_some_iff.mp h
  rw [List.countP_set hlt, if_neg ha, if_pos hb, Nat.sub_zero]

/-- What relates the positions and the elements of a list relates each one. -/
theorem forall₂_range {α : Type*} {P : Nat → α → Prop} {n : Nat} {xs : List α}
    (h : List.Forall₂ P (List.range n) xs) {i : Nat} {x : α} (hx : xs[i]? = some x) :
    i < n ∧ P i x := by
  obtain ⟨hi, hget⟩ := List.getElem?_eq_some_iff.mp hx
  have hn := h.length_eq
  rw [List.length_range] at hn
  have hP := h.get (by rwa [List.length_range, hn]) hi
  rw [List.get_eq_getElem, List.get_eq_getElem, List.getElem_range, hget] at hP
  exact ⟨hn ▸ hi, hP⟩

/-- Induction along the turns of a loop that consumes `k` elements at a time. -/
theorem chunkInduction {α : Type*} {k : Nat} (hk : 0 < k) {P : List α → Prop}
    (short : ∀ l, l.length < k → P l)
    (full : ∀ chunk rest, chunk.length = k → P rest → P (chunk ++ rest)) : ∀ l, P l := by
  intro l
  induction hn : l.length using Nat.strongRecOn generalizing l with
  | ind n ih =>
    by_cases hlt : l.length < k
    · exact short l hlt
    · have hdrop : (l.drop k).length < n := by rw [List.length_drop]; omega
      have hfull := full (l.take k) (l.drop k) (by rw [List.length_take]; omega)
        (ih _ hdrop (l.drop k) rfl)
      rwa [List.take_append_drop] at hfull

/-- Up to `k` elements are one chunk. -/
theorem chunkCount_eq_one {k n : Nat} (hpos : 0 < n) (hle : n ≤ k) : (n + (k - 1)) / k = 1 :=
  Nat.div_eq_of_lt_le (by omega) (by omega)

/-- A full chunk more is one chunk more. -/
theorem chunkCount_add {k : Nat} (hk : 0 < k) (n : Nat) :
    (k + n + (k - 1)) / k = (n + (k - 1)) / k + 1 := by
  rw [Nat.add_assoc, Nat.add_comm, Nat.add_div_right _ hk]

/-- There are no more chunks than elements. -/
theorem chunkCount_le {k : Nat} (hk : 0 < k) (n : Nat) : (n + (k - 1)) / k ≤ n := by
  rcases Nat.eq_zero_or_pos n with rfl | hpos
  · rw [Nat.zero_add]
    exact Nat.le_of_eq (Nat.div_eq_of_lt (Nat.sub_lt hk Nat.one_pos))
  · obtain ⟨m, rfl⟩ : ∃ m, n = m + 1 := ⟨n - 1, by omega⟩
    refine Nat.div_le_of_le_mul ?_
    have hmul : m ≤ k * m := Nat.le_mul_of_pos_left m hk
    rw [Nat.mul_add, Nat.mul_one]
    omega

/-- The consecutive pieces of `k` elements of a list, the last one possibly shorter. -/
def pieces {α : Type*} (k : Nat) (l : List α) : List (List α) :=
  (List.range ((l.length + (k - 1)) / k)).map fun g => (l.drop (k * g)).take k

@[simp] theorem pieces_nil {α : Type*} {k : Nat} (hk : 0 < k) : pieces k ([] : List α) = [] := by
  have h : (([] : List α).length + (k - 1)) / k = 0 :=
    Nat.div_eq_of_lt (by rw [List.length_nil]; omega)
  rw [pieces, h, List.range_zero, List.map_nil]

/-- A non-empty list of at most one chunk is one piece. -/
theorem pieces_short {α : Type*} {k : Nat} {l : List α} (hne : l ≠ []) (hl : l.length ≤ k) :
    pieces k l = [l] := by
  have hpos := List.length_pos_of_ne_nil hne
  have h := chunkCount_eq_one hpos hl
  simp [pieces, h, List.take_of_length_le hl]

/-- A full chunk is the first piece. -/
theorem pieces_append {α : Type*} {k : Nat} (hk : 0 < k) {chunk rest : List α}
    (h : chunk.length = k) : pieces k (chunk ++ rest) = chunk :: pieces k rest := by
  have hcount : ((chunk ++ rest).length + (k - 1)) / k = (rest.length + (k - 1)) / k + 1 := by
    rw [List.length_append, h, chunkCount_add hk]
  rw [pieces, hcount, List.range_succ_eq_map, List.map_cons, List.map_map]
  congr 1
  · rw [Nat.mul_zero, List.drop_zero, ← h, List.take_left]
  · apply List.map_congr_left
    intro g _
    simp only [Function.comp_apply, Nat.succ_eq_add_one, Nat.mul_add, Nat.mul_one]
    rw [Nat.add_comm, ← List.drop_drop, ← h, List.drop_left]

/-! ## Numbering positions -/

/-- Writing the number of each position in a list of positions, from `n` on. -/
def writeNumbers {β : Type*} (g : Nat → β) : Nat → List Nat → List β → List β
  | _, [], xs => xs
  | n, i :: is, xs => writeNumbers g (n + 1) is (xs.set i (g n))

/-- Other positions are left alone. -/
theorem getElem?_writeNumbers_of_notMem {β : Type*} {g : Nat → β} {n j : Nat} {is : List Nat}
    {xs : List β} (h : j ∉ is) : (writeNumbers g n is xs)[j]? = xs[j]? := by
  induction is generalizing n xs with
  | nil => rfl
  | cons i is ih =>
    obtain ⟨hi, his⟩ := not_or.mp (mt List.mem_cons.mpr h)
    rw [writeNumbers, ih his, List.getElem?_set_ne (Ne.symm hi)]

@[simp] theorem length_writeNumbers {β : Type*} {g : Nat → β} {n : Nat} {is : List Nat}
    {xs : List β} : (writeNumbers g n is xs).length = xs.length := by
  induction is generalizing n xs with
  | nil => rfl
  | cons i is ih => rw [writeNumbers, ih, List.length_set]

/-- Each of distinct positions has its number. -/
theorem getElem?_writeNumbers {β : Type*} {g : Nat → β} {n k i : Nat} {is : List Nat} {xs : List β}
    (hnodup : is.Nodup) (hk : is[k]? = some i) (hi : i < xs.length) :
    (writeNumbers g n is xs)[i]? = some (g (n + k)) := by
  induction is generalizing n k xs with
  | nil => cases hk
  | cons j is ih =>
    obtain ⟨hj, hrest⟩ := List.nodup_cons.mp hnodup
    rw [writeNumbers]
    cases k with
    | zero =>
      obtain rfl : j = i := Option.some.inj hk
      rw [getElem?_writeNumbers_of_notMem hj, List.getElem?_set_self hi, Nat.add_zero]
    | succ k =>
      rw [ih hrest hk (by rwa [List.length_set]), Nat.add_right_comm, Nat.add_assoc]

/-! ## Up to a stop mark -/

/-- The first occurrence of an element splits a list in one way. -/
theorem append_cons_inj_of_first {α : Type*} {a : α} {front front' rest rest' : List α}
    (h : a ∉ front) (h' : a ∉ front') (heq : front ++ a :: rest = front' ++ a :: rest') :
    front = front' ∧ rest = rest' := by
  rcases List.append_eq_append_iff.mp heq with ⟨between, rfl, hbetween⟩ | ⟨between, rfl, hbetween⟩
  · cases between with
    | nil => exact ⟨(List.append_nil _).symm, (List.cons.inj hbetween).2⟩
    | cons x between =>
      obtain ⟨rfl, -⟩ := List.cons.inj hbetween
      exact absurd (List.mem_append_right _ List.mem_cons_self) h'
  · cases between with
    | nil => exact ⟨List.append_nil _, (List.cons.inj hbetween).2.symm⟩
    | cons x between =>
      obtain ⟨rfl, -⟩ := List.cons.inj hbetween
      exact absurd (List.mem_append_right _ List.mem_cons_self) h

/-- The elements before the first `a`, when it is among the first `n` elements. -/
def beforeWithin {α : Type*} [DecidableEq α] (a : α) : Nat → List α → Option (List α)
  | 0, _ => none
  | _ + 1, [] => none
  | n + 1, x :: xs => if x = a then some [] else (beforeWithin a n xs).map (x :: ·)

section BeforeWithin

variable {α : Type*} [DecidableEq α] {a : α}

@[simp] theorem beforeWithin_zero (l : List α) : beforeWithin a 0 l = none := rfl

@[simp] theorem beforeWithin_nil (n : Nat) : beforeWithin a n [] = none := by
  cases n <;> rfl

/-- A piece that holds the mark settles the search. -/
theorem beforeWithin_append_of_mem {piece : List α} (h : a ∈ piece) (rest : List α) {n : Nat}
    (hn : piece.length ≤ n) :
    beforeWithin a n (piece ++ rest) = some (piece.takeWhile (· ≠ a)) := by
  induction piece generalizing n with
  | nil => cases h
  | cons x xs ih =>
    obtain ⟨m, rfl⟩ : ∃ m, n = m + 1 := ⟨n - 1, by rw [List.length_cons] at hn; omega⟩
    rw [List.cons_append, beforeWithin]
    by_cases hx : x = a
    · simp [hx]
    · have hxs : a ∈ xs := (List.mem_cons.mp h).resolve_left (Ne.symm hx)
      rw [if_neg hx, ih hxs (by rw [List.length_cons] at hn; omega)]
      simp [hx]

/-- A piece without the mark leaves the search to the rest. -/
theorem beforeWithin_append_of_notMem {piece : List α} (h : a ∉ piece) (rest : List α) {n : Nat}
    (hn : piece.length ≤ n) :
    beforeWithin a n (piece ++ rest) =
      (beforeWithin a (n - piece.length) rest).map (piece ++ ·) := by
  induction piece generalizing n with
  | nil => simp
  | cons x xs ih =>
    obtain ⟨m, rfl⟩ : ∃ m, n = m + 1 := ⟨n - 1, by rw [List.length_cons] at hn; omega⟩
    obtain ⟨hx, hxs⟩ : a ≠ x ∧ a ∉ xs := by simpa only [List.mem_cons, not_or] using h
    rw [List.cons_append, beforeWithin, if_neg (Ne.symm hx),
      ih hxs (by rw [List.length_cons] at hn; omega), List.length_cons, Nat.add_sub_add_right,
      Option.map_map]
    rfl

/-- A list that ends in the mark within the bound is found whole. -/
theorem beforeWithin_append_cons {body : List α} (h : a ∉ body) (rest : List α) {n : Nat}
    (hn : body.length < n) : beforeWithin a n (body ++ a :: rest) = some body := by
  obtain ⟨m, hm⟩ : ∃ m, n - body.length = m + 1 := ⟨n - body.length - 1, by omega⟩
  rw [beforeWithin_append_of_notMem h _ (by omega), hm]
  simp [beforeWithin]

/-- What is found is in front of the mark, inside the bound. -/
theorem beforeWithin_eq_some {n : Nat} {l body : List α} (h : beforeWithin a n l = some body) :
    a ∉ body ∧ body.length < n ∧ ∃ rest, l = body ++ a :: rest := by
  induction n generalizing l body with
  | zero => cases h
  | succ n ih =>
    cases l with
    | nil => cases h
    | cons x xs =>
      rw [beforeWithin] at h
      by_cases hx : x = a
      · rw [if_pos hx, Option.some.injEq] at h
        subst h hx
        exact ⟨by simp, by simp, xs, rfl⟩
      · rw [if_neg hx, Option.map_eq_some_iff] at h
        obtain ⟨tail, htail, rfl⟩ := h
        obtain ⟨hmem, hlen, rest, rfl⟩ := ih htail
        refine ⟨by simp [Ne.symm hx, hmem], ?_, rest, rfl⟩
        rw [List.length_cons]
        omega

end BeforeWithin

/-- The loops over rows and over the places of a row go through all places. -/
theorem flatMap_range_mul {α : Type*} (f : Nat → List α) (rows columns : Nat) :
    ((List.range rows).flatMap fun y => (List.range columns).flatMap fun x => f (y * columns + x)) =
      (List.range (rows * columns)).flatMap f := by
  induction rows with
  | zero => rw [Nat.zero_mul]; rfl
  | succ rows ih =>
    rw [List.range_succ, List.flatMap_append, ih, List.flatMap_singleton, Nat.succ_mul,
      List.range_add, List.flatMap_append, List.flatMap_map]

end OldRadio.Library
