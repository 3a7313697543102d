import Mathlib.Data.List.ReduceOption
import Mathlib.Order.WithBot
import OldRadio.Library.BinaryHeap

/-!
# Heaps in lists

A heap as Python's `heapq` keeps it: a list in which no item is below its
parent. The module is taken for what it promises, that its functions keep the
heap and neither lose nor invent an item. The siftings of a binary heap are one
way to keep the promise.
-/

namespace OldRadio.Library

variable {α : Type*} [LinearOrder α]

/-- No item of a list is below its parent. -/
def IsHeap (heap : List α) : Prop :=
  ∀ i x y, 0 < i → heap[heapParent i]? = some x → heap[i]? = some y → x ≤ y

/-- The key of a cell, with the cells behind the list above all items. -/
def cellKey : Option α → WithTop α := id

/-- A heap in a list is a heap in its cells. -/
theorem isHeap_iff {heap : List α} :
    IsHeap heap ↔ HeapOrdered cellKey (fun i => heap[i]?) heap.length := by
  constructor
  · intro h i hpos hi
    have hp : heapParent i < heap.length := (heapParent_lt hpos).trans hi
    dsimp only
    rw [List.getElem?_eq_getElem hi, List.getElem?_eq_getElem hp]
    exact WithTop.coe_le_coe.mpr
      (h i _ _ hpos (List.getElem?_eq_getElem hp) (List.getElem?_eq_getElem hi))
  · intro h i x y hpos hx hy
    have hle := h i hpos (List.getElem?_eq_some_iff.mp hy).1
    dsimp only at hle
    rw [hx, hy] at hle
    exact WithTop.coe_le_coe.mp hle

theorem isHeap_nil : IsHeap ([] : List α) := fun _ _ _ _ h _ => by cases h

/-- The first item of a heap is a smallest one. -/
theorem IsHeap.head_le {top : α} {rest : List α} (h : IsHeap (top :: rest)) :
    ∀ x ∈ top :: rest, top ≤ x := by
  intro x hx
  obtain ⟨i, hi⟩ := List.mem_iff_getElem?.mp hx
  have hle := (isHeap_iff.mp h).root_le i (List.getElem?_eq_some_iff.mp hi).1
  rw [hi] at hle
  exact WithTop.coe_le_coe.mp hle

/-- What the functions of `heapq` promise about a heap. -/
structure Heapq (α : Type*) [LinearOrder α] where
  /-- The heap behind `heappush(heap, item)`. -/
  heappush : List α → α → List α
  /-- The heap behind `heapreplace(heap, item)`. -/
  heapreplace : List α → α → List α
  /-- An item is added. -/
  heappush_perm : ∀ {heap} item, IsHeap heap → (heappush heap item).Perm (item :: heap)
  /-- It is a heap again. -/
  isHeap_heappush : ∀ {heap} item, IsHeap heap → IsHeap (heappush heap item)
  /-- The smallest item makes room for another. -/
  heapreplace_perm : ∀ {top rest} item, IsHeap (top :: rest) →
    (heapreplace (top :: rest) item).Perm (item :: rest)
  /-- It is a heap again. -/
  isHeap_heapreplace : ∀ {top rest} item, IsHeap (top :: rest) →
    IsHeap (heapreplace (top :: rest) item)

/-! ## The siftings of a binary heap -/

/-- The list in the first `n` cells. -/
def cellsList (a : Nat → Option α) (n : Nat) : List α := ((List.range n).map a).reduceOption

omit [LinearOrder α] in
/-- The contents of the cells of a list are its items. -/
theorem contents_getElem? (l : List α) :
    contents (fun i => l[i]?) l.length = ((l : Multiset α)).map some := by
  have hcells : (List.range l.length).map (fun i => l[i]?) = l.map some := by
    refine List.ext_getElem (by simp) fun i hi _ => ?_
    rw [List.length_map, List.length_range] at hi
    rw [List.getElem_map, List.getElem_map, List.getElem_range, List.getElem?_eq_getElem hi]
  calc contents (fun i => l[i]?) l.length
      = (((List.range l.length).map fun i => l[i]? : List (Option α)) : Multiset (Option α)) := rfl
    _ = _ := by rw [hcells, Multiset.map_coe]

omit [LinearOrder α] in
/-- Cells that hold the items of a list in some order are the cells of another order of it. -/
theorem cellsList_spec {a : Nat → Option α} {n : Nat} {l : List α}
    (h : contents a n = ((l : Multiset α)).map some) :
    (cellsList a n).Perm l ∧ (cellsList a n).length = n ∧
      ∀ i < n, (cellsList a n)[i]? = a i := by
  have hsome : ∀ l : List (Option α), (∀ o ∈ l, o.isSome) → l.reduceOption.map some = l := by
    intro l hl
    induction l with
    | nil => rfl
    | cons o l ih =>
      obtain ⟨x, rfl⟩ := Option.isSome_iff_exists.mp (hl o List.mem_cons_self)
      rw [List.reduceOption_cons_of_some, List.map_cons,
        ih fun o ho => hl o (List.mem_cons_of_mem _ ho)]
  have hperm : ((List.range n).map a).Perm (l.map some) := Multiset.coe_eq_coe.mp h
  have hcells : (cellsList a n).map some = (List.range n).map a := by
    refine hsome _ fun o ho => ?_
    obtain ⟨x, -, rfl⟩ := List.mem_map.mp (hperm.mem_iff.mp ho)
    rfl
  have hlength : (cellsList a n).length = n := by
    rw [← List.length_map some, hcells, List.length_map, List.length_range]
  refine ⟨?_, hlength, fun i hi => ?_⟩
  · refine (List.map_perm_map_iff (Option.some_injective α)).mp ?_
    rwa [hcells]
  · have hget := congrArg (·[i]?) hcells
    rw [List.getElem?_map, List.getElem?_map, List.getElem?_range hi,
      List.getElem?_eq_getElem (by rwa [hlength])] at hget
    rw [List.getElem?_eq_getElem (by rwa [hlength])]
    exact Option.some_injective _ hget

/-- A heap in the cells is a heap in their list. -/
theorem isHeap_cellsList {a : Nat → Option α} {n : Nat} {l : List α}
    (h : contents a n = ((l : Multiset α)).map some) (ha : HeapOrdered cellKey a n) :
    IsHeap (cellsList a n) := by
  obtain ⟨-, hlength, hcells⟩ := cellsList_spec h
  rw [isHeap_iff, hlength]
  exact ha.congr fun i hi => (hcells i hi).symm

/-- The cells in front of a push: only the new one may be below its parent. -/
theorem IsHeap.upOrdered_append {heap : List α} (h : IsHeap heap) (item : α) :
    UpOrdered cellKey (fun i => (heap ++ [item])[i]?) (heap.length + 1) heap.length := by
  constructor
  · intro j hpos hj hne
    have hold : j < heap.length := by omega
    rw [List.getElem?_append_left hold,
      List.getElem?_append_left ((heapParent_lt hpos).trans hold)]
    exact isHeap_iff.mp h j hpos hold
  · intro _ j hpos hj hp
    have hlt := heapParent_lt hpos
    omega

/-- The cells in front of a replacement: only the children of the root may be below it. -/
theorem IsHeap.downOrdered_cons {top : α} {rest : List α} (h : IsHeap (top :: rest)) (item : α) :
    DownOrdered cellKey (fun i => (item :: rest)[i]?) (rest.length + 1) 0 := by
  constructor
  · intro j hpos hj hp
    have hle := isHeap_iff.mp h j hpos hj
    obtain ⟨i, hi⟩ := Nat.exists_eq_succ_of_ne_zero hpos.ne'
    obtain ⟨p, hp⟩ := Nat.exists_eq_succ_of_ne_zero hp
    rw [hp, hi] at hle ⊢
    exact hle
  · intro hpos
    exact absurd hpos (lt_irrefl 0)

/-- Sifting up keeps the items that are pushed. -/
theorem contents_push (heap : List α) (item : α) :
    contents (siftUp cellKey heap.length (fun i => (heap ++ [item])[i]?) heap.length)
        (heap.length + 1) = ((heap ++ [item] : List α) : Multiset α).map some := by
  rw [contents_siftUp (Nat.lt_succ_self _), ← contents_getElem?, List.length_append,
    List.length_singleton]

/-- Sifting down keeps the items that are left. -/
theorem contents_replace (item : α) (rest : List α) :
    contents (siftDown cellKey (rest.length + 1) (rest.length + 1)
        (fun i => (item :: rest)[i]?) 0) (rest.length + 1) =
      ((item :: rest : List α) : Multiset α).map some := by
  rw [contents_siftDown (Nat.succ_pos _), ← contents_getElem?, List.length_cons]

/-- The functions of a binary heap that sifts by exchanges. -/
def binaryHeapq : Heapq α where
  heappush heap item :=
    cellsList (siftUp cellKey heap.length (fun i => (heap ++ [item])[i]?) heap.length)
      (heap.length + 1)
  heapreplace heap item :=
    cellsList (siftDown cellKey heap.length heap.length (fun i => (heap.set 0 item)[i]?) 0)
      heap.length
  heappush_perm {heap} item _ :=
    (cellsList_spec (contents_push heap item)).1.trans (List.perm_append_singleton ..)
  isHeap_heappush {heap} item h :=
    isHeap_cellsList (contents_push heap item)
      (heapOrdered_siftUp (h.upOrdered_append item) (Nat.lt_succ_self _) le_rfl)
  heapreplace_perm {_ rest} item _ := (cellsList_spec (contents_replace item rest)).1
  isHeap_heapreplace {_ rest} item h :=
    isHeap_cellsList (contents_replace item rest)
      (heapOrdered_siftDown (h.downOrdered_cons item) (Nat.le_add_left ..))

end OldRadio.Library
