import Mathlib.Data.List.Nodup

/-!
# Lists with keys

A list whose elements have keys, as a table that is searched from the front. An
element that is put in takes the place of the first one with its key, if it may
replace it, and goes to the end if there is none.
-/

namespace OldRadio.Library

section Keyed

variable {α κ : Type*} [DecidableEq κ] (key : α → κ) (replaces : α → α → Bool)

/-- The first element with a key. -/
def firstWith (k : κ) (l : List α) : Option α := l.find? fun a => key a = k

/-- The list with the first element of the key of `new` treated, or nothing if there is none. -/
def overwrite (new : α) : List α → Option (List α)
  | [] => none
  | old :: rest =>
    if key old = key new then some ((if replaces new old then new else old) :: rest)
    else (overwrite new rest).map (old :: ·)

/-- The list after `new` is put in. -/
def upsert (new : α) (l : List α) : List α :=
  (overwrite key replaces new l).getD (l ++ [new])

/-- What stands under the key of `new` after it is put in. -/
def settled (new : α) (old? : Option α) : α :=
  match old? with
  | none => new
  | some old => if replaces new old then new else old

variable {key replaces} {new a : α} {k : κ} {l : List α}

@[simp] theorem settled_none : settled replaces new none = new := rfl

@[simp] theorem settled_some :
    settled replaces new (some a) = if replaces new a then new else a := rfl

@[simp] theorem firstWith_nil : firstWith key k [] = none := rfl

theorem firstWith_cons :
    firstWith key k (a :: l) = if key a = k then some a else firstWith key k l := by
  rw [firstWith, List.find?_cons]
  by_cases h : key a = k <;> simp [h, firstWith]

theorem upsert_nil : upsert key replaces new [] = [new] := rfl

theorem upsert_cons : upsert key replaces new (a :: l) =
    if key a = key new then (if replaces new a then new else a) :: l
    else a :: upsert key replaces new l := by
  rw [upsert, overwrite]
  by_cases h : key a = key new
  · rw [if_pos h, if_pos h, Option.getD_some]
  · rw [if_neg h, if_neg h, upsert]
    cases overwrite key replaces new l <;> rfl

omit [DecidableEq κ] in
/-- The key of the element that stays under a key does not change. -/
theorem key_replaced (h : key a = key new) :
    key (if replaces new a then new else a) = key new := by
  split
  · rfl
  · exact h

variable (key replaces new l) in
theorem firstWith_upsert_self : firstWith key (key new) (upsert key replaces new l) =
    some (settled replaces new (firstWith key (key new) l)) := by
  induction l with
  | nil =>
    rw [upsert_nil, firstWith_cons, if_pos rfl]
    rfl
  | cons a l ih =>
    rw [upsert_cons, firstWith_cons]
    by_cases h : key a = key new
    · rw [if_pos h, if_pos h, firstWith_cons, if_pos (key_replaced h)]
      rfl
    · rw [if_neg h, if_neg h, firstWith_cons, if_neg h, ih]

/-- Other keys are left alone. -/
theorem firstWith_upsert_of_ne (hk : k ≠ key new) :
    firstWith key k (upsert key replaces new l) = firstWith key k l := by
  induction l with
  | nil => rw [upsert_nil, firstWith_cons, if_neg hk.symm]
  | cons a l ih =>
    rw [upsert_cons, firstWith_cons]
    by_cases h : key a = key new
    · have ha : key a ≠ k := fun he => hk (he.symm.trans h)
      rw [if_pos h, firstWith_cons, if_neg ha, if_neg]
      rw [key_replaced h]
      exact hk.symm
    · rw [if_neg h, firstWith_cons, ih]

variable (key replaces new l) in
/-- The elements with other keys stay, in their order. -/
theorem filter_upsert : (upsert key replaces new l).filter (fun a => key a ≠ key new) =
    l.filter fun a => key a ≠ key new := by
  induction l with
  | nil => simp [upsert_nil]
  | cons a l ih =>
    rw [upsert_cons]
    by_cases h : key a = key new
    · rw [if_pos h, List.filter_cons_of_neg (by simpa using key_replaced h),
        List.filter_cons_of_neg (by simpa using h)]
    · rw [if_neg h, List.filter_cons_of_pos (by simpa using h),
        List.filter_cons_of_pos (by simpa using h), ih]

/-- The keys stay, and a new one goes to the end. -/
theorem map_upsert : (upsert key replaces new l).map key =
    if key new ∈ l.map key then l.map key else l.map key ++ [key new] := by
  induction l with
  | nil => rfl
  | cons a l ih =>
    rw [upsert_cons, List.map_cons]
    by_cases h : key a = key new
    · rw [if_pos h, List.map_cons, key_replaced h, h, if_pos List.mem_cons_self]
    · rw [if_neg h, List.map_cons, ih]
      have hmem : key new ∈ key a :: l.map key ↔ key new ∈ l.map key := by
        rw [List.mem_cons, or_iff_right (Ne.symm h)]
      simp only [hmem]
      split
      · rfl
      · rfl

/-- Nothing but the new element comes in. -/
theorem mem_of_mem_upsert (h : a ∈ upsert key replaces new l) : a = new ∨ a ∈ l := by
  induction l with
  | nil => exact Or.inl (List.mem_singleton.mp h)
  | cons b l ih =>
    rw [upsert_cons] at h
    split at h
    · rcases List.mem_cons.mp h with rfl | h
      · split
        · exact Or.inl rfl
        · exact Or.inr List.mem_cons_self
      · exact Or.inr (List.mem_cons_of_mem b h)
    · rcases List.mem_cons.mp h with rfl | h
      · exact Or.inr List.mem_cons_self
      · exact (ih h).imp_right (List.mem_cons_of_mem b)

theorem length_upsert : (upsert key replaces new l).length =
    if key new ∈ l.map key then l.length else l.length + 1 := by
  rw [← List.length_map (f := key), map_upsert]
  split <;> simp

/-- Distinct keys stay distinct. -/
theorem nodup_upsert (h : (l.map key).Nodup) : ((upsert key replaces new l).map key).Nodup := by
  rw [map_upsert]
  split
  · exact h
  · rename_i hnew
    rw [← List.concat_eq_append]
    exact List.Nodup.concat hnew h

omit [DecidableEq κ] in
/-- A list of distinct keys is empty if the elements with a property have the same keys as those
without it. -/
theorem eq_nil_of_map_filter {p : α → Bool} (hnodup : (l.map key).Nodup)
    (h : (l.filter p).map key = (l.filter fun a => !p a).map key) : l = [] := by
  refine List.eq_nil_iff_forall_not_mem.mpr fun a ha => ?_
  obtain ⟨b, hb, hba, hpb⟩ : ∃ b ∈ l, key b = key a ∧ p b ≠ p a := by
    cases hp : p a with
    | true =>
      have hmem : key a ∈ (l.filter p).map key := List.mem_map_of_mem (List.mem_filter.mpr ⟨ha, hp⟩)
      rw [h] at hmem
      obtain ⟨b, hb, hba⟩ := List.mem_map.mp hmem
      obtain ⟨hb, hpb⟩ := List.mem_filter.mp hb
      exact ⟨b, hb, hba, by simpa using hpb⟩
    | false =>
      have hmem : key a ∈ (l.filter fun a => !p a).map key :=
        List.mem_map_of_mem (List.mem_filter.mpr ⟨ha, by rw [hp]; rfl⟩)
      rw [← h] at hmem
      obtain ⟨b, hb, hba⟩ := List.mem_map.mp hmem
      obtain ⟨hb, hpb⟩ := List.mem_filter.mp hb
      exact ⟨b, hb, hba, by simpa using hpb⟩
  rw [List.inj_on_of_nodup_map hnodup hb ha hba] at hpb
  exact hpb rfl

end Keyed

end OldRadio.Library
