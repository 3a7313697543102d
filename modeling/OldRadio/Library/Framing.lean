import OldRadio.Library.Lists

/-!
# Frames between marks

A frame is what stands between a start mark and the next stop mark, if that is
within `cap` elements. `received` is what a receiver gets that reads element by
element. A receiver that reads in bulk may take elements behind a stop mark with
the frame in front of it and drop them: `Lossy` relates a stream to everything
such a receiver may get. The stream has one outcome exactly when no start mark
that could be dropped matters.
-/

namespace OldRadio.Library

/-- The result of a frame in front of the later ones: nothing, an element, or an error that ends
the list. -/
def carry {ε β : Type*} : Except ε (Option β) → List (Except ε β) → List (Except ε β)
  | .error e, _ => [.error e]
  | .ok none, l => l
  | .ok (some x), l => .ok x :: l

@[simp] theorem carry_error {ε β : Type*} (e : ε) (l : List (Except ε β)) :
    carry (.error e) l = [.error e] := rfl

@[simp] theorem carry_ok_none {ε β : Type*} (l : List (Except ε β)) :
    carry (.ok none) l = l := rfl

@[simp] theorem carry_ok_some {ε β : Type*} (x : β) (l : List (Except ε β)) :
    carry (.ok (some x)) l = .ok x :: l := rfl

/-- A frame that does not fail leaves different lists different. -/
theorem carry_ok_injective {ε β : Type*} (result : Option β) :
    Function.Injective (carry (ε := ε) (.ok result)) := by
  intro l l' h
  cases result with
  | none => exact h
  | some x => exact (List.cons.inj h).2

/-- Two results give the same list only if they are equal, or one is nothing and the other the
error that comes next anyway. -/
theorem carry_eq_carry_iff {ε β : Type*} {a b : Except ε (Option β)} {l : List (Except ε β)} :
    carry a l = carry b l ↔ a = b ∨ ∃ e, l = [.error e] ∧
      (a = .ok none ∧ b = .error e ∨ a = .error e ∧ b = .ok none) := by
  have hcons : ∀ x, l ≠ .ok x :: l := fun x h => by
    have hlen := congrArg List.length h
    rw [List.length_cons] at hlen
    omega
  constructor
  · intro h
    rcases a with e | _ | x <;> rcases b with e' | _ | x'
    · simp only [carry_error, List.cons.injEq, and_true] at h
      exact Or.inl (congrArg Except.error (Except.error.inj h))
    · exact Or.inr ⟨e, h.symm, Or.inr ⟨rfl, rfl⟩⟩
    · cases h
    · exact Or.inr ⟨e', h, Or.inl ⟨rfl, rfl⟩⟩
    · exact Or.inl rfl
    · exact absurd h (hcons x')
    · cases h
    · exact absurd h.symm (hcons x)
    · simp only [carry_ok_some, List.cons.injEq, and_true, Except.ok.injEq] at h
      rw [h]
      exact Or.inl rfl
  · rintro (rfl | ⟨e, rfl, ⟨rfl, rfl⟩ | ⟨rfl, rfl⟩⟩) <;> rfl

/-- Two marks, the room for a frame, and what a frame is decoded to. -/
structure Framing (α ε β : Type*) where
  /-- The mark in front of a frame. -/
  start : α
  /-- The mark behind a frame. -/
  stop : α
  /-- The marks differ. -/
  start_ne_stop : start ≠ stop
  /-- How many elements a receiver takes for a frame and its stop mark. -/
  cap : Nat
  /-- There is room for a stop mark. -/
  cap_pos : 0 < cap
  /-- The result of a frame. -/
  decode : List α → Except ε (Option β)

namespace Framing

variable {α ε β : Type*} [DecidableEq α] (F : Framing α ε β)

/-! ## Element by element -/

/-- An element other than a stop mark, for a receiver that waits for a start mark or has part of
a frame. -/
def gather : Option (List α) → α → Option (List α)
  | none, x => if x = F.start then some [] else none
  | some got, x => if got.length + 1 < F.cap then some (got ++ [x]) else none

/-- What a receiver gets at a stop mark. -/
def outcome (state : Option (List α)) : Except ε (Option β) := state.elim (.ok none) F.decode

/-- What a receiver gets that reads element by element. -/
def received : Option (List α) → List α → List (Except ε β)
  | _, [] => []
  | state, x :: rest =>
    if x = F.stop then carry (F.outcome state) (received none rest)
    else received (F.gather state x) rest

variable {F}

/-- Up to the next stop mark a receiver only gathers. -/
theorem received_append {state : Option (List α)} {seg : List α} (h : F.stop ∉ seg)
    (rest : List α) :
    F.received state (seg ++ rest) = F.received (seg.foldl F.gather state) rest := by
  induction seg generalizing state with
  | nil => rfl
  | cons x seg ih =>
    obtain ⟨hx, hseg⟩ : F.stop ≠ x ∧ F.stop ∉ seg := by
      simpa only [List.mem_cons, not_or] using h
    rw [List.cons_append, received, if_neg (Ne.symm hx), ih hseg, List.foldl_cons]

/-- At the next stop mark it gets what it has gathered. -/
theorem received_stop {state : Option (List α)} {seg : List α} (h : F.stop ∉ seg)
    (rest : List α) :
    F.received state (seg ++ F.stop :: rest) =
      carry (F.outcome (seg.foldl F.gather state)) (F.received none rest) := by
  rw [received_append h, received, if_pos rfl]

/-- Without a stop mark nothing is received. -/
theorem received_of_notMem {state : Option (List α)} {l : List α} (h : F.stop ∉ l) :
    F.received state l = [] := by
  have hall : F.received state (l ++ []) = _ := received_append h []
  rwa [List.append_nil, received] at hall

/-- A waiting receiver skips what holds no start mark. -/
theorem received_noise {noise : List α} (h : F.start ∉ noise) (rest : List α) :
    F.received none (noise ++ rest) = F.received none rest := by
  induction noise with
  | nil => rfl
  | cons x noise ih =>
    obtain ⟨hx, hnoise⟩ : F.start ≠ x ∧ F.start ∉ noise := by
      simpa only [List.mem_cons, not_or] using h
    rw [List.cons_append, received, gather, if_neg (Ne.symm hx), ih hnoise]
    split <;> rfl

theorem received_start (rest : List α) :
    F.received none (F.start :: rest) = F.received (some []) rest := by
  rw [received, if_neg F.start_ne_stop, gather, if_pos rfl]

/-- While there is room everything is gathered. -/
theorem foldl_gather {got seg : List α} (h : got.length + seg.length < F.cap) :
    seg.foldl F.gather (some got) = some (got ++ seg) := by
  induction seg generalizing got with
  | nil => rw [List.foldl_nil, List.append_nil]
  | cons x seg ih =>
    rw [List.length_cons] at h
    rw [List.foldl_cons, gather, if_pos (by omega),
      ih (by rw [List.length_append, List.length_singleton]; omega), List.append_assoc]
    rfl

/-- A receiver with no room left waits again. -/
theorem foldl_gather_full {seg : List α} (h : seg.length = F.cap) :
    seg.foldl F.gather (some []) = none := by
  have hpos := F.cap_pos
  obtain ⟨front, x, rfl⟩ : ∃ front x, seg = front ++ [x] := by
    rcases List.eq_nil_or_concat seg with rfl | ⟨front, x, hseg⟩
    · rw [List.length_nil] at h
      omega
    · exact ⟨front, x, by rw [hseg, List.concat_eq_append]⟩
  rw [List.length_append, List.length_singleton] at h
  rw [List.foldl_append, foldl_gather (by rw [List.length_nil]; omega), List.foldl_cons,
    List.foldl_nil, gather, if_neg (by simp only [List.nil_append]; omega)]

/-- Behind a start mark a receiver gets the frame there. -/
theorem received_frame {rest got : List α} (h : beforeWithin F.stop F.cap rest = some got) :
    F.received (some []) rest =
      carry (F.decode got) (F.received none (rest.drop (got.length + 1))) := by
  obtain ⟨hmem, hlen, tail, rfl⟩ := beforeWithin_eq_some h
  have hdrop : (got ++ F.stop :: tail).drop (got.length + 1) = tail := by
    rw [← List.drop_drop, List.drop_left, List.drop_one, List.tail_cons]
  rw [received_stop hmem, foldl_gather (by rw [List.length_nil]; omega), hdrop]
  rfl

/-- Without a stop mark in reach it skips as much as it can hold. -/
theorem received_overrun {rest : List α} (h : beforeWithin F.stop F.cap rest = none) :
    F.received (some []) rest = F.received none (rest.drop F.cap) := by
  have hmem : F.stop ∉ rest.take F.cap := fun hmem => by
    have hsome := beforeWithin_append_of_mem hmem (rest.drop F.cap) (List.length_take_le ..)
    rw [List.take_append_drop, h] at hsome
    cases hsome
  conv_lhs => rw [← List.take_append_drop F.cap rest, received_append hmem]
  rcases Nat.lt_or_ge rest.length F.cap with hlt | hge
  · rw [List.drop_eq_nil_of_le (Nat.le_of_lt hlt), received, received]
  · rw [foldl_gather_full (List.length_take_of_le hge)]

/-! ## In bulk -/

variable (F)

/-- What a receiver may get that takes any number of elements behind a stop mark with the frame,
as long as there is room, and drops them. -/
inductive Lossy : List α → List (Except ε β) → Prop
  | idle {l : List α} : F.start ∉ l → Lossy l []
  | overrun {noise rest : List α} {l : List (Except ε β)} : F.start ∉ noise →
      beforeWithin F.stop F.cap rest = none → Lossy (rest.drop F.cap) l →
      Lossy (noise ++ F.start :: rest) l
  | frame {noise rest got : List α} {l : List (Except ε β)} (j : Nat) : F.start ∉ noise →
      beforeWithin F.stop F.cap rest = some got → got.length < j → j ≤ F.cap →
      Lossy (rest.drop j) l → Lossy (noise ++ F.start :: rest) (carry (F.decode got) l)

/-- The rests of a stream in front of which such a receiver may come to wait for a start mark. -/
inductive Waits (stream : List α) : List α → Prop
  | first : Waits stream stream
  | overrun {noise rest : List α} : Waits stream (noise ++ F.start :: rest) → F.start ∉ noise →
      beforeWithin F.stop F.cap rest = none → Waits stream (rest.drop F.cap)
  | frame {noise rest got : List α} {result : Option β} (j : Nat) :
      Waits stream (noise ++ F.start :: rest) → F.start ∉ noise →
      beforeWithin F.stop F.cap rest = some got → F.decode got = .ok result →
      got.length < j → j ≤ F.cap → Waits stream (rest.drop j)

/-- The first frame of a stream that gives anything gives an error. -/
inductive FailsFirst (e : ε) : List α → Prop
  | here {seg tail : List α} : F.stop ∉ seg →
      F.outcome (seg.foldl F.gather none) = .error e → FailsFirst e (seg ++ F.stop :: tail)
  | later {seg tail : List α} : F.stop ∉ seg →
      F.outcome (seg.foldl F.gather none) = .ok none → FailsFirst e tail →
      FailsFirst e (seg ++ F.stop :: tail)

/-- A start mark in front of `seg` does not matter: at the next stop mark a receiver that has seen
it gets what one gets that has not, or one of them gets nothing and the other an error that
both get next anyway. -/
def Harmless (seg tail : List α) : Prop :=
  F.outcome (seg.foldl F.gather (some [])) = F.outcome (seg.foldl F.gather none) ∨
    ∃ e, F.FailsFirst e tail ∧
      (F.outcome (seg.foldl F.gather (some [])) = .ok none ∧
          F.outcome (seg.foldl F.gather none) = .error e ∨
        F.outcome (seg.foldl F.gather (some [])) = .error e ∧
          F.outcome (seg.foldl F.gather none) = .ok none)

/-- Behind every frame that may be found, no start mark within its room matters. -/
def Recoverable (stream : List α) : Prop :=
  ∀ noise rest got result j seg tail, F.Waits stream (noise ++ F.start :: rest) →
    F.start ∉ noise → beforeWithin F.stop F.cap rest = some got → F.decode got = .ok result →
    got.length < j → j < F.cap → rest.drop j = F.start :: (seg ++ F.stop :: tail) →
    F.stop ∉ seg → F.Harmless seg tail

variable {F}

/-- Failing first is what the receiver sees that reads element by element. -/
theorem failsFirst_iff {e : ε} {l : List α} :
    F.FailsFirst e l ↔ F.received none l = [.error e] := by
  constructor
  · intro h
    induction h with
    | here hseg he => rw [received_stop hseg, he, carry_error]
    | later hseg hnone _ ih => rw [received_stop hseg, hnone, carry_ok_none, ih]
  · intro h
    induction hn : l.length using Nat.strongRecOn generalizing l with
    | ind n ih =>
      by_cases hmem : F.stop ∈ l
      · obtain ⟨seg, tail, rfl, hseg⟩ := List.eq_append_cons_of_mem hmem
        rw [received_stop hseg] at h
        cases hout : F.outcome (seg.foldl F.gather none) with
        | error e' =>
          rw [hout, carry_error, List.cons.injEq] at h
          exact .here hseg (hout.trans (congrArg Except.error (Except.error.inj h.1)))
        | ok result =>
          rw [hout] at h
          cases result with
          | some x => cases h
          | none =>
            refine .later hseg hout (ih tail.length ?_ h rfl)
            rw [← hn, List.length_append, List.length_cons]
            omega
      · rw [received_of_notMem hmem] at h
        cases h

/-- A start mark does not matter exactly when dropping it leaves what is received. -/
theorem harmless_iff {seg tail : List α} (h : F.stop ∉ seg) :
    F.Harmless seg tail ↔
      F.received none (F.start :: (seg ++ F.stop :: tail)) =
        F.received none (seg ++ F.stop :: tail) := by
  rw [received_start, received_stop h, received_stop h, carry_eq_carry_iff, Harmless]
  simp only [failsFirst_iff]

/-- Without a start mark there is nothing to get. -/
theorem Lossy.eq_nil {stream : List α} {l : List (Except ε β)} (h : F.Lossy stream l)
    (hidle : F.start ∉ stream) : l = [] := by
  cases h with
  | idle => rfl
  | overrun => exact absurd (List.mem_append_right _ List.mem_cons_self) hidle
  | frame => exact absurd (List.mem_append_right _ List.mem_cons_self) hidle

/-- Reading element by element is one way to read in bulk. -/
theorem lossy_received (l : List α) : F.Lossy l (F.received none l) := by
  induction hn : l.length using Nat.strongRecOn generalizing l with
  | ind n ih =>
    by_cases hmem : F.start ∈ l
    · obtain ⟨noise, rest, rfl, hnoise⟩ := List.eq_append_cons_of_mem hmem
      have hshort : ∀ j, (rest.drop j).length < n := fun j => by
        rw [← hn, List.length_append, List.length_cons, List.length_drop]
        omega
      rw [received_noise hnoise, received_start]
      cases hfound : beforeWithin F.stop F.cap rest with
      | none =>
        rw [received_overrun hfound]
        exact .overrun hnoise hfound (ih _ (hshort _) _ rfl)
      | some got =>
        rw [received_frame hfound]
        have hlen := (beforeWithin_eq_some hfound).2.1
        exact .frame _ hnoise hfound (Nat.lt_succ_self _) hlen (ih _ (hshort _) _ rfl)
    · have hidle := received_noise hmem []
      rw [List.append_nil] at hidle
      rw [hidle]
      exact .idle hmem

/-- In a recoverable stream nothing is lost with the elements behind a stop mark. -/
theorem Recoverable.received_drop {stream noise rest got : List α} {result : Option β}
    (hrec : F.Recoverable stream) (hwaits : F.Waits stream (noise ++ F.start :: rest))
    (hnoise : F.start ∉ noise) (hfound : beforeWithin F.stop F.cap rest = some got)
    (hok : F.decode got = .ok result) {j : Nat} (hj : got.length + 1 ≤ j) (hcap : j ≤ F.cap) :
    F.received none (rest.drop j) = F.received none (rest.drop (got.length + 1)) := by
  induction hj with
  | refl => rfl
  | @step j hj ih =>
    rw [← ih (Nat.le_of_succ_le hcap), ← List.tail_drop]
    cases hdrop : rest.drop j with
    | nil => rfl
    | cons x tail =>
      rw [List.tail_cons]
      by_cases hx : x = F.start
      · subst hx
        by_cases hstop : F.stop ∈ tail
        · obtain ⟨seg, behind, rfl, hseg⟩ := List.eq_append_cons_of_mem hstop
          exact ((harmless_iff hseg).mp
            (hrec _ _ _ _ j _ _ hwaits hnoise hfound hok hj hcap hdrop hseg)).symm
        · rw [received_of_notMem hstop, received_start, received_of_notMem hstop]
      · have hskip : F.start ∉ [x] := by simpa using Ne.symm hx
        exact (received_noise hskip tail).symm

/-- In a recoverable stream a receiver gets the same however it reads. -/
theorem Recoverable.eq_received {stream front : List α} {l : List (Except ε β)}
    (hrec : F.Recoverable stream) (hwaits : F.Waits stream front) (h : F.Lossy front l) :
    l = F.received none front := by
  induction h with
  | @idle l hidle =>
    have hnone := received_noise hidle []
    rw [List.append_nil] at hnone
    rw [hnone, received]
  | overrun hnoise hfound _ ih =>
    rw [ih (.overrun hwaits hnoise hfound), received_noise hnoise, received_start,
      received_overrun hfound]
  | @frame noise rest got l j hnoise hfound hj hcap _ ih =>
    rw [received_noise hnoise, received_start, received_frame hfound]
    cases hok : F.decode got with
    | error e => rfl
    | ok result =>
      rw [ih (.frame j hwaits hnoise hfound hok hj hcap),
        hrec.received_drop hwaits hnoise hfound hok hj hcap]

/-- What may be got from a rest that is reached is part of what may be got from the stream. -/
theorem Waits.lossy {stream front : List α} (h : F.Waits stream front) :
    ∃ behind : List (Except ε β) → List (Except ε β), Function.Injective behind ∧
      ∀ l, F.Lossy front l → F.Lossy stream (behind l) := by
  induction h with
  | first => exact ⟨id, Function.injective_id, fun _ hl => hl⟩
  | overrun _ hnoise hfound ih =>
    obtain ⟨behind, hinj, hlossy⟩ := ih
    exact ⟨behind, hinj, fun l hl => hlossy l (.overrun hnoise hfound hl)⟩
  | @frame _ _ _ result j _ hnoise hfound hok hj hcap ih =>
    obtain ⟨behind, hinj, hlossy⟩ := ih
    refine ⟨behind ∘ carry (.ok result), hinj.comp (carry_ok_injective result),
      fun l hl => hlossy _ ?_⟩
    rw [← hok]
    exact .frame j hnoise hfound hj hcap hl

/-- A receiver that reads in bulk gets the same however it reads exactly when the stream is
recoverable. -/
theorem lossy_unique_iff {stream : List α} :
    (∀ l l', F.Lossy stream l → F.Lossy stream l' → l = l') ↔ F.Recoverable stream := by
  constructor
  · intro hunique noise rest got result j seg tail hwaits hnoise hfound hok hj hcap hdrop hseg
    obtain ⟨behind, hinj, hlossy⟩ := Waits.lossy hwaits
    have hnext : rest.drop (j + 1) = seg ++ F.stop :: tail := by
      rw [← List.tail_drop, hdrop, List.tail_cons]
    rw [harmless_iff hseg, ← hdrop, ← hnext]
    apply carry_ok_injective result
    rw [← hok]
    exact hinj (hunique _ _
      (hlossy _ (.frame j hnoise hfound hj (by omega) (lossy_received _)))
      (hlossy _ (.frame (j + 1) hnoise hfound (by omega) hcap (lossy_received _))))
  · intro hrec l l' hl hl'
    rw [hrec.eq_received .first hl, hrec.eq_received .first hl']

end Framing

end OldRadio.Library
