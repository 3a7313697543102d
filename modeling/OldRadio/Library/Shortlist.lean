import Mathlib.Algebra.Order.Group.Multiset
import Mathlib.Data.List.Induction
import OldRadio.Library.Heapq

/-!
# Shortlists

From a stream of items, a bounded number is kept, those with the largest keys.
A heap holds them with a smallest one at the root: as long as there is room an
item is pushed, and then it replaces the root if its key is larger. Every item
that was dropped has a key no larger than any that is kept.
-/

namespace OldRadio.Library

section Steps

variable {α κ : Type*} [LinearOrder κ] {key : α → κ} {k : Nat}

variable (key k) in
/-- A selection of at most `k` items, with the items dropped. -/
structure Shortlist (kept dropped : Multiset α) : Prop where
  /-- It is not too long. -/
  card_le : kept.card ≤ k
  /-- Nothing is dropped as long as there is room. -/
  full : dropped ≠ 0 → kept.card = k
  /-- What is dropped is no better than what is kept. -/
  le : ∀ x ∈ kept, ∀ y ∈ dropped, key y ≤ key x

theorem shortlist_zero : Shortlist key k 0 0 where
  card_le := Nat.zero_le k
  full h := absurd rfl h
  le _ hx := absurd hx (Multiset.notMem_zero _)

variable {kept dropped : Multiset α}

/-- As long as there is room, an item is added. -/
theorem Shortlist.add (h : Shortlist key k kept dropped) (hroom : kept.card < k) (x : α) :
    Shortlist key k (x ::ₘ kept) dropped := by
  have hnone : dropped = 0 := not_not.mp fun hne => hroom.ne (h.full hne)
  subst hnone
  constructor
  · rw [Multiset.card_cons]
    exact hroom
  · exact fun hne => absurd rfl hne
  · exact fun _ _ y hy => absurd hy (Multiset.notMem_zero y)

/-- A better item takes the place of a worst one. -/
theorem Shortlist.replace {top x : α} {rest : Multiset α}
    (h : Shortlist key k (top ::ₘ rest) dropped) (hfull : (top ::ₘ rest).card = k)
    (htop : ∀ y ∈ rest, key top ≤ key y) (hx : key top ≤ key x) :
    Shortlist key k (x ::ₘ rest) (top ::ₘ dropped) := by
  have hcard : (x ::ₘ rest).card = k := by
    rwa [Multiset.card_cons, ← Multiset.card_cons top]
  refine ⟨hcard.le, fun _ => hcard, fun y hy z hz => ?_⟩
  have hz : key z ≤ key top := by
    rcases Multiset.mem_cons.mp hz with rfl | hz
    · exact le_rfl
    · exact h.le top (Multiset.mem_cons_self ..) z hz
  rcases Multiset.mem_cons.mp hy with rfl | hy
  · exact hz.trans hx
  · exact hz.trans (htop y hy)

/-- An item no better than a worst one is dropped. -/
theorem Shortlist.skip {top x : α} (h : Shortlist key k kept dropped) (hfull : kept.card = k)
    (htop : ∀ y ∈ kept, key top ≤ key y) (hx : key x ≤ key top) :
    Shortlist key k kept (x ::ₘ dropped) := by
  refine ⟨h.card_le, fun _ => hfull, fun y hy z hz => ?_⟩
  rcases Multiset.mem_cons.mp hz with rfl | hz
  · exact hx.trans (htop y hy)
  · exact h.le y hy z hz

/-- A full selection has a worst item of the best key there is exactly when that many items have
it. -/
theorem Shortlist.key_eq_iff {top : α} {best : κ} (h : Shortlist key k kept dropped)
    (hfull : kept.card = k) (hmem : top ∈ kept) (htop : ∀ y ∈ kept, key top ≤ key y)
    (hbest : ∀ y ∈ kept + dropped, key y ≤ best) :
    key top = best ↔ k ≤ (kept + dropped).countP (key · = best) := by
  constructor
  · intro heq
    have hall : kept.countP (key · = best) = kept.card :=
      Multiset.countP_eq_card.mpr fun y hy =>
        (hbest y (Multiset.mem_add.mpr (Or.inl hy))).antisymm (heq ▸ htop y hy)
    rw [Multiset.countP_add, hall, hfull]
    exact Nat.le_add_right ..
  · intro hcount
    by_contra hne
    have hlt : key top < best := (hbest top (Multiset.mem_add.mpr (Or.inl hmem))).lt_of_ne hne
    have hdropped : dropped.countP (key · = best) = 0 :=
      Multiset.countP_eq_zero.mpr fun y hy => ((h.le top hmem y hy).trans_lt hlt).ne
    have hkept : kept.countP (key · = best) ≠ kept.card := fun hall =>
      hne (Multiset.countP_eq_card.mp hall top hmem)
    have hle := Multiset.countP_le_card (key · = best) kept
    rw [Multiset.countP_add, hdropped] at hcount
    omega

end Steps

section Stream

variable {α κ : Type*} [LinearOrder α] [LinearOrder κ] (heapq : Heapq α) (key : α → κ) (k : Nat)

/-- Another item is offered. -/
def offer (heap : List α) (x : α) : List α :=
  if heap.length < k then heapq.heappush heap x
  else
    match heap with
    | [] => []
    | top :: rest => if key top < key x then heapq.heapreplace (top :: rest) x else top :: rest

/-- What is kept of a list of items. -/
def shortlist (items : List α) : List α := items.foldl (offer heapq key k) []

variable {heapq key k}

theorem offer_of_lt {heap : List α} (hroom : heap.length < k) (x : α) :
    offer heapq key k heap x = heapq.heappush heap x :=
  if_pos hroom

theorem offer_cons {top : α} {rest : List α} (hfull : ¬ (top :: rest).length < k) (x : α) :
    offer heapq key k (top :: rest) x =
      if key top < key x then heapq.heapreplace (top :: rest) x else top :: rest :=
  if_neg hfull

theorem shortlist_concat (items : List α) (x : α) :
    shortlist heapq key k (items ++ [x]) = offer heapq key k (shortlist heapq key k items) x := by
  rw [shortlist, List.foldl_append]
  rfl

variable (heapq) in
/-- The heap stays a heap, and a selection of what was offered. -/
theorem Shortlist.offer {heap : List α} {dropped : Multiset α} (hkey : Monotone key)
    (hheap : IsHeap heap) (h : Shortlist key k heap dropped) (x : α) :
    IsHeap (offer heapq key k heap x) ∧
      ∃ dropped', (offer heapq key k heap x : Multiset α) + dropped' = x ::ₘ (heap + dropped) ∧
        Shortlist key k (offer heapq key k heap x) dropped' := by
  by_cases hroom : heap.length < k
  · rw [offer_of_lt hroom]
    have hperm : (heapq.heappush heap x : Multiset α) = x ::ₘ (heap : Multiset α) :=
      Multiset.coe_eq_coe.mpr (heapq.heappush_perm x hheap)
    refine ⟨heapq.isHeap_heappush x hheap, dropped, ?_, ?_⟩
    · rw [hperm, Multiset.cons_add]
    · rw [hperm]
      exact h.add hroom x
  have hfull : (heap : Multiset α).card = k := h.card_le.antisymm (not_lt.mp hroom)
  cases heap with
  | nil =>
    rw [show Library.offer heapq key k [] x = [] from if_neg hroom]
    refine ⟨isHeap_nil, x ::ₘ dropped, ?_, ?_⟩
    · exact Multiset.add_cons ..
    · have hnone : ∀ y ∈ (([] : List α) : Multiset α), key x ≤ key y := fun y hy =>
        absurd hy (Multiset.notMem_zero y)
      exact h.skip hfull hnone le_rfl
  | cons top rest =>
    have htop : ∀ y ∈ ((top :: rest : List α) : Multiset α), key top ≤ key y := fun y hy =>
      hkey (hheap.head_le y hy)
    rw [offer_cons hroom]
    by_cases hx : key top < key x
    · rw [if_pos hx]
      have hperm : (heapq.heapreplace (top :: rest) x : Multiset α) =
          x ::ₘ (rest : Multiset α) := Multiset.coe_eq_coe.mpr (heapq.heapreplace_perm x hheap)
      refine ⟨heapq.isHeap_heapreplace x hheap, top ::ₘ dropped, ?_, ?_⟩
      · rw [hperm, ← Multiset.cons_coe, Multiset.cons_add, Multiset.cons_add, Multiset.add_cons]
      · rw [hperm]
        exact h.replace hfull (fun y hy => htop y (Multiset.mem_cons_of_mem hy)) hx.le
    · rw [if_neg hx]
      refine ⟨hheap, x ::ₘ dropped, ?_, ?_⟩
      · exact Multiset.add_cons ..
      · exact h.skip hfull htop (not_lt.mp hx)

variable (heapq k) in
/-- Whatever is offered in whatever order, the heap holds a selection of it. -/
theorem shortlist_spec (hkey : Monotone key) (items : List α) :
    IsHeap (shortlist heapq key k items) ∧
      ∃ dropped, (shortlist heapq key k items : Multiset α) + dropped = items ∧
        Shortlist key k (shortlist heapq key k items) dropped := by
  induction items using List.reverseRecOn with
  | nil => exact ⟨isHeap_nil, 0, rfl, shortlist_zero⟩
  | append_singleton items x ih =>
    obtain ⟨hheap, dropped, hitems, h⟩ := ih
    rw [shortlist_concat]
    obtain ⟨hheap', dropped', hitems', h'⟩ := h.offer heapq hkey hheap x
    refine ⟨hheap', dropped', ?_, h'⟩
    refine hitems'.trans ?_
    rw [hitems, Multiset.cons_coe]
    exact Multiset.coe_eq_coe.mpr (List.perm_append_singleton ..).symm

end Stream

end OldRadio.Library
