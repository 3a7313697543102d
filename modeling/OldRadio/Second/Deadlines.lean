import OldRadio.Second.Receive

/-!
# Deadlines of the receiving loops

Both loops turn the time left until a deadline into the timeout of a `poll`.
`radio_wait` looks first whether the clock has passed the deadline. `radio_recv`
does not: the unsigned difference wraps, its millisecond count is cut to an
`int`, and a clock reading one microsecond late waits for two weeks.
-/

namespace OldRadio.Second

/-- The clock reading of a `poll` has not passed the deadline, and its timeout is positive and does
not exceed the time left in milliseconds, or one. -/
def PollInTime (timeout : VTime) (p : VTime × Int) : Prop :=
  p.1 ≤ timeout ∧ 1 ≤ p.2 ∧
    p.2 ≤ max 1 (((timeout.toNat - p.1.toNat) / vtimeMillis : Nat) : Int)

instance (timeout : VTime) (p : VTime × Int) : Decidable (PollInTime timeout p) :=
  inferInstanceAs (Decidable (_ ∧ _))

/-- Cutting to an `int` makes a number no larger. -/
theorem toInt_toInt32_le (n : UInt64) : n.toUInt32.toInt32.toInt ≤ n.toNat := by
  rw [toInt_toInt32_toUInt32, Int.bmod_def]
  split <;> omega

/-- Until the deadline the timeout does not exceed the time left. -/
theorem timeoutMs_le {timeout now : VTime} (h : now ≤ timeout) :
    timeoutMs timeout now ≤ ((timeout.toNat - now.toNat) / vtimeMillis : Nat) := by
  rw [← UInt64.toNat_sub_of_le _ _ h]
  refine (toInt_toInt32_le _).trans (Int.ofNat_le.mpr (le_of_eq ?_))
  rw [UInt64.toNat_div]
  rfl

/-- The timeout of a turn that comes in time. -/
theorem pollInTime_max {timeout now : VTime} (h : now ≤ timeout) :
    PollInTime timeout (now, max (timeoutMs timeout now) 1) := by
  refine ⟨h, le_max_right _ _, max_le ?_ (le_max_left _ _)⟩
  exact (timeoutMs_le h).trans (le_max_right _ _)

/-! ## `radio_wait` -/

/-- Every `poll` of the waiting loop is in time. -/
theorem waitLoop_polls {timeout : VTime} {fuel : Nat} {port : Port} {p : VTime × Int}
    (h : p ∈ (waitLoop timeout fuel port).2.polls) : p ∈ port.polls ∨ PollInTime timeout p := by
  induction fuel generalizing port with
  | zero => exact Or.inl h
  | succ fuel ih =>
    have hpoll : ¬ timeout < port.current.now →
        p ∈ (port.current.now, max (timeoutMs timeout port.current.now) 1) :: port.polls →
        p ∈ port.polls ∨ PollInTime timeout p := by
      intro hnow hp
      rcases List.mem_cons.mp hp with rfl | hp
      · exact Or.inr (pollInTime_max (UInt64.not_lt.mp hnow))
      · exact Or.inl hp
    rw [waitLoop] at h
    split at h
    · exact Or.inl h
    · rename_i hnow
      simp only at h
      split at h
      · exact hpoll hnow h
      · split at h
        · exact hpoll hnow h
        · rcases ih h with hp | hp
          · exact hpoll hnow hp
          · exact Or.inr hp

/-! ## `radio_recv` -/

/-- How many bytes a turn with data reads behind `n` bytes of the buffer, if there are so many. -/
def Turn.readSize (turn : Turn) (n : Nat) : Nat := min (max turn.avail 1) (maxFrame - n)

/-- With `n` bytes in the buffer and turn `t` next, the reading loop comes to the turn `j` turns
later: no turn before it finds its timeout below 1, runs out of time or data, reads a stop mark or
fills the buffer. -/
def RecvComes (timeout : VTime) (turns : Nat → Turn) : Nat → Nat → Nat → List UInt8 → Prop
  | 0, _, n, _ => n < maxFrame
  | j + 1, t, n, stream =>
    n < maxFrame ∧ 1 ≤ timeoutMs timeout (turns t).now ∧
      ((turns t).ready = true ∧ stream ≠ []) ∧
      symbolEnd ∉ stream.take ((turns t).readSize n) ∧
      RecvComes timeout turns j (t + 1) (n + (stream.take ((turns t).readSize n)).length)
        (stream.drop ((turns t).readSize n))

theorem RecvComes.room {timeout : VTime} {turns : Nat → Turn} {j t n : Nat} {stream : List UInt8}
    (h : RecvComes timeout turns j t n stream) : n < maxFrame := by
  cases j with
  | zero => exact h
  | succ j => exact h.1

/-- The `poll` of a turn of the reading loop. -/
def recvPoll (timeout : VTime) (turns : Nat → Turn) (t : Nat) : VTime × Int :=
  ((turns t).now, timeoutMs timeout (turns t).now)

/-- The loop comes to a turn with room in the buffer, and to those that the next one leads to, if it
goes on. -/
theorem forall_recvComes {timeout : VTime} {turns : Nat → Turn} {t n : Nat} {stream : List UInt8}
    {Q : Nat → Prop} (hroom : n < maxFrame) :
    (∀ j, RecvComes timeout turns j t n stream → Q j) ↔
      Q 0 ∧ (1 ≤ timeoutMs timeout (turns t).now → (turns t).ready = true ∧ stream ≠ [] →
        symbolEnd ∉ stream.take ((turns t).readSize n) →
        ∀ j, RecvComes timeout turns j (t + 1) (n + (stream.take ((turns t).readSize n)).length)
          (stream.drop ((turns t).readSize n)) → Q (j + 1)) := by
  constructor
  · intro h
    exact ⟨h 0 hroom, fun hms hready hend j hj => h (j + 1) ⟨hroom, hms, hready, hend, hj⟩⟩
  · rintro ⟨hzero, hnext⟩ j hj
    cases j with
    | zero => exact hzero
    | succ j => exact hnext hj.2.1 hj.2.2.1 hj.2.2.2.1 j hj.2.2.2.2

/-- What a turn that polls and reads leaves of the port. -/
theorem Port.advance_read (port : Port) (ms : Int) (n : Nat) :
    let read := (port.poll ms).2.read (maxFrame - n)
    let size := (port.turns port.turn).readSize n
    read.1 = port.stream.take size ∧ read.2.advance.stream = port.stream.drop size ∧
      read.2.advance.polls = (port.current.now, ms) :: port.polls ∧
      read.2.advance.turns = port.turns ∧ read.2.advance.turn = port.turn + 1 :=
  ⟨rfl, rfl, rfl, rfl, rfl⟩

/-- The calls of `poll` in the reading loop are those of the turns that it comes to and finds time
left in. -/
theorem recvLoop_polls {timeout : VTime} {P : VTime × Int → Prop} {fuel : Nat} {recv : List UInt8}
    {port : Port} (hfuel : maxFrame < fuel + recv.length) :
    (∀ p ∈ (recvLoop timeout fuel recv port).2.polls, P p) ↔ (∀ p ∈ port.polls, P p) ∧
      ∀ j, RecvComes timeout port.turns j port.turn recv.length port.stream →
        1 ≤ timeoutMs timeout (port.turns (port.turn + j)).now →
          P (recvPoll timeout port.turns (port.turn + j)) := by
  induction fuel generalizing recv port with
  | zero =>
    refine (and_iff_left fun j hj => ?_).symm
    have := hj.room
    omega
  | succ fuel ih =>
    rw [recvLoop]
    split
    · rename_i hfull
      refine (and_iff_left fun j hj => ?_).symm
      have := hj.room
      omega
    rename_i hroom
    rw [forall_recvComes (Nat.lt_of_not_le hroom)]
    by_cases hms : timeoutMs timeout port.current.now < 1
    · simp only [hms, if_true]
      have hlate : ¬ 1 ≤ timeoutMs timeout (port.turns port.turn).now := Int.not_le.mpr hms
      exact (and_iff_left ⟨fun h => absurd h hlate, fun h => absurd h hlate⟩).symm
    have hwait : 1 ≤ timeoutMs timeout (port.turns port.turn).now := Int.not_lt.mp hms
    simp only [hms, if_false, Port.poll_fst]
    by_cases hready : port.current.ready = true ∧ port.stream ≠ []
    · have hgo : (port.current.ready && !port.stream.isEmpty) = true := by simp [hready]
      simp only [hgo, Bool.not_true, Bool.false_eq_true, if_false]
      obtain ⟨hgot, hstream, hpolls, hturns, hturn⟩ :=
        port.advance_read (timeoutMs timeout port.current.now) recv.length
      have hpos : 0 < ((port.poll (timeoutMs timeout port.current.now)).2.read
          (maxFrame - recv.length)).1.length := Port.length_read_pos hready.2 (by omega)
      generalize (port.poll (timeoutMs timeout port.current.now)).2.read
        (maxFrame - recv.length) = read at hgot hstream hpolls hturns hturn hpos
      change read.2.advance.polls = recvPoll timeout port.turns port.turn :: port.polls at hpolls
      rw [hgot]
      by_cases hend : symbolEnd ∈ port.stream.take ((port.turns port.turn).readSize recv.length)
      · rw [if_pos hend, hpolls, List.forall_mem_cons, and_comm, Nat.add_zero]
        refine and_congr_right fun _ => (Iff.symm ?_)
        exact (and_iff_left fun _ _ hnot => absurd hend hnot).trans
          ⟨fun h => h hwait, fun h _ => h⟩
      · have hnext := @ih (recv ++ read.1) read.2.advance (by rw [List.length_append]; omega)
        rw [hgot, hpolls, hstream, hturns, hturn, List.length_append, List.forall_mem_cons] at hnext
        rw [if_neg hend, hnext, and_comm (a := P _), and_assoc, Nat.add_zero]
        refine and_congr_right fun _ => and_congr ⟨fun h _ => h, fun h => h hwait⟩ ?_
        simp only [Nat.add_assoc, Nat.add_comm 1]
        exact ⟨fun h _ _ _ => h, fun h => h hwait hready hend⟩
    · have hstop : (port.current.ready && !port.stream.isEmpty) = false := by
        by_contra hgo
        simp only [Bool.not_eq_false, Bool.and_eq_true, Bool.not_eq_true',
          List.isEmpty_eq_false_iff] at hgo
        exact hready hgo
      simp only [hstop, Bool.not_false, if_true]
      change (∀ p ∈ recvPoll timeout port.turns port.turn :: port.polls, P p) ↔ _
      rw [List.forall_mem_cons, and_comm, Nat.add_zero]
      refine and_congr_right fun _ => (Iff.symm ?_)
      exact (and_iff_left fun _ hgo => absurd hgo hready).trans ⟨fun h => h hwait, fun h _ => h⟩

/-- Before the first turn nothing is in the buffer. -/
theorem radioRecv_polls (timeout : VTime) (P : VTime × Int → Prop) (port : Port) :
    (∀ p ∈ (radioRecv timeout port).2.polls, P p) ↔ (∀ p ∈ port.polls, P p) ∧
      ∀ j, RecvComes timeout port.turns j port.turn 0 port.stream →
        1 ≤ timeoutMs timeout (port.turns (port.turn + j)).now →
          P (recvPoll timeout port.turns (port.turn + j)) := by
  have hport : (radioRecv timeout port).2 = (recvLoop timeout (maxFrame + 1) [] port).2 := by
    rw [radioRecv]
    rcases recvLoop timeout (maxFrame + 1) [] port with ⟨_ | recv, port'⟩ <;> rfl
  rw [hport]
  exact recvLoop_polls (by simp)

/-- Every `poll` of `radio_wait` keeps the deadline, and every one of `radio_recv` does if and only
if each clock reading past the deadline that it comes to makes a wrapped count below 1. -/
theorem recvDeadline_iff (timeout : VTime) (port : Port) :
    (∀ p ∈ (radioWait timeout { port with polls := [] }).2.polls, PollInTime timeout p) ∧
      ((∀ p ∈ (radioRecv timeout { port with polls := [] }).2.polls, PollInTime timeout p) ↔
        ∀ j, RecvComes timeout port.turns j port.turn 0 port.stream →
          timeout < (port.turns (port.turn + j)).now →
            timeoutMs timeout (port.turns (port.turn + j)).now < 1) := by
  constructor
  · intro p hp
    exact (waitLoop_polls hp).resolve_left List.not_mem_nil
  · rw [radioRecv_polls]
    constructor
    · rintro ⟨-, h⟩ j hj hlate
      by_contra hwait
      exact UInt64.not_lt.mpr (h j hj (Int.not_lt.mp hwait)).1 hlate
    · intro h
      refine ⟨fun p hp => absurd hp List.not_mem_nil, fun j hj hwait => ?_⟩
      have hnow : (port.turns (port.turn + j)).now ≤ timeout :=
        UInt64.not_lt.mp fun hlate => Int.not_lt.mpr hwait (h j hj hlate)
      exact ⟨hnow, hwait, (timeoutMs_le hnow).trans (le_max_right _ _)⟩

/-- A turn that reads the clock one microsecond past the deadline polls for two weeks. -/
theorem recvDeadline_late : ¬ ∀ (timeout : VTime) (port : Port),
    ∀ p ∈ (radioRecv timeout { port with polls := [] }).2.polls, PollInTime timeout p := by
  intro hall
  have hlate := hall 1000000
    { stream := [], turns := fun _ => { now := 1000001, ready := false, avail := 0 } }
    (1000001, 1271310319) (by decide)
  revert hlate
  decide

end OldRadio.Second
