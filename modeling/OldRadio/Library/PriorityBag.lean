import Mathlib.Algebra.Order.Group.Multiset
import Mathlib.Order.Basic

/-!
# What a priority queue is for

A bag of elements, of which the ones with the smallest key come out first.
Asking an empty bag answers a distinguished element whose key no pending answer
has, so an answer shows whether anything was pending.
-/

namespace OldRadio.Library

/-- The operations of a priority queue. -/
inductive BagOp (α : Type*) where
  /-- Put an element in. -/
  | insert (x : α)
  /-- Look at a smallest element. -/
  | top
  /-- Take a smallest element out. -/
  | pop
  deriving DecidableEq

section

variable {α κ : Type*} [LinearOrder κ] (key : α → κ) (null : α)

/-- An element with the smallest key in a bag, told apart from the empty answer. -/
structure IsFirst (bag : Multiset α) (x : α) : Prop where
  /-- The element is in the bag. -/
  mem : x ∈ bag
  /-- No key in the bag is smaller. -/
  le : ∀ y ∈ bag, key x ≤ key y
  /-- The answer is not the one of an empty bag. -/
  lt_null : key x < key null

/-- One operation: the bag before, the operation, its answer and the bag after. -/
inductive BagStep : Multiset α → BagOp α → Option α → Multiset α → Prop where
  /-- An insertion adds the element. -/
  | insert {bag : Multiset α} (x : α) : BagStep bag (.insert x) none (x ::ₘ bag)
  /-- The top of an empty bag. -/
  | topEmpty : BagStep 0 .top (some null) 0
  /-- The top of a bag is a first element, which stays. -/
  | top {bag : Multiset α} {x : α} (h : IsFirst key null bag x) : BagStep bag .top (some x) bag
  /-- Popping an empty bag. -/
  | popEmpty : BagStep 0 .pop (some null) 0
  /-- Popping removes a first element and nothing else. -/
  | pop {bag : Multiset α} {x : α} (h : IsFirst key null (x ::ₘ bag) x) :
    BagStep (x ::ₘ bag) .pop (some x) bag

/-- A sequence of operations with the answers they gave. -/
inductive BagRun : Multiset α → List (BagOp α) → List (Option α) → Multiset α → Prop where
  /-- Nothing done. -/
  | nil (bag : Multiset α) : BagRun bag [] [] bag
  /-- One operation and the rest. -/
  | cons {bag next last : Multiset α} {op : BagOp α} {ops : List (BagOp α)} {answer : Option α}
    {answers : List (Option α)} (step : BagStep key null bag op answer next)
    (rest : BagRun next ops answers last) : BagRun bag (op :: ops) (answer :: answers) last

end

section

variable {α : Type*}

/-- How many elements an operation leaves of `n`. -/
def BagOp.countAfter : Nat → BagOp α → Nat
  | n, .insert _ => n + 1
  | n, .top => n
  | n, .pop => n - 1

/-- How many elements a sequence of operations leaves of `n`. -/
def bagCount (n : Nat) (ops : List (BagOp α)) : Nat := ops.foldl BagOp.countAfter n

@[simp] theorem bagCount_cons (n : Nat) (op : BagOp α) (ops : List (BagOp α)) :
    bagCount n (op :: ops) = bagCount (op.countAfter n) ops := rfl

variable {κ : Type*} [LinearOrder κ] {key : α → κ} {null : α}

/-- The count follows the bag. -/
theorem BagStep.card {bag next : Multiset α} {op : BagOp α} {answer : Option α}
    (h : BagStep key null bag op answer next) : next.card = op.countAfter bag.card := by
  cases h with
  | insert x => rw [Multiset.card_cons, BagOp.countAfter]
  | pop h => rw [Multiset.card_cons, BagOp.countAfter, Nat.add_sub_cancel]
  | _ => rfl

end

end OldRadio.Library
