import OldRadio.First.BeaconTable
import OldRadio.Library.Transition

/-!
# Listening before sending

The loops of `virtloc.c`, `chatter.c` and `topofind.c`, which differ in their
times. A turn lasts `TIMEOUT`. A program waits for packets as long as its turn
has time left, and after a packet at least for a random hold-off; then it sends.
Only an interrupt makes it send at once, and then it exits.
-/

namespace OldRadio.First

open Library

/-- A `struct timeval`. -/
structure TimeVal where
  /-- Seconds. -/
  sec : Int
  /-- Microseconds. -/
  usec : Fin 1000000
  deriving DecidableEq, Repr

/-- A reading of the clock, from the microseconds of the second. -/
def TimeVal.at (sec : Int) (usec : Nat) : TimeVal :=
  ⟨sec, usec % 1000000, Nat.mod_lt usec (Nat.succ_pos 999999)⟩

/-- A reading of the clock in microseconds. -/
def TimeVal.micros (t : TimeVal) : Int := 1000000 * t.sec + t.usec.val

/-- The milliseconds between two readings, as the programs count them. -/
def elapsedMillis (tv1 tv2 : TimeVal) : Int :=
  (tv2.sec - tv1.sec) * 1000 + ((tv2.usec.val : Int) - tv1.usec.val).tdiv 1000

/-- They are wrong by less than one. -/
theorem elapsedMillis_bounds (tv1 tv2 : TimeVal) :
    1000 * elapsedMillis tv1 tv2 - 1000 < tv2.micros - tv1.micros ∧
      tv2.micros - tv1.micros < 1000 * elapsedMillis tv1 tv2 + 1000 := by
  have hdiv := Int.mul_tdiv_add_tmod ((tv2.usec.val : Int) - tv1.usec.val) 1000
  have hlow := Int.lt_tmod_of_pos ((tv2.usec.val : Int) - tv1.usec.val) (b := 1000) (by decide)
  have hhigh := Int.tmod_lt_of_pos ((tv2.usec.val : Int) - tv1.usec.val) (b := 1000) (by decide)
  rw [elapsedMillis, TimeVal.micros, TimeVal.micros]
  omega

/-- `TIMEOUT`, `HOLDOFFMIN` and `HOLDOFFMAX` of a program, in milliseconds. -/
structure ListenTimes where
  /-- How long a turn lasts. -/
  timeout : Int
  /-- The shortest hold-off. -/
  holdoffMin : Int
  /-- More than the longest one. -/
  holdoffMax : Int
  /-- There is a hold-off. -/
  pos : 0 < holdoffMin
  /-- There are hold-offs to choose from. -/
  lt : holdoffMin < holdoffMax

/-- The times of `virtloc.c`. -/
def virtlocTimes : ListenTimes := ⟨1000, 100, 500, by decide, by decide⟩

/-- The times of `chatter.c`. -/
def chatterTimes : ListenTimes := ⟨500, 20, 100, by decide, by decide⟩

/-- The times of `topofind.c`. -/
def topofindTimes : ListenTimes := ⟨2500, 500, 1500, by decide, by decide⟩

/-- What a pass of the inner loop hears. -/
inductive Heard where
  /-- `wait_packet` waits in vain. -/
  | silence
  /-- It fails, or what comes is no packet. -/
  | noise
  /-- `recv_packet` returns a packet. -/
  | packet
  deriving DecidableEq, Repr

/-- Where a program is. -/
inductive ListenAt where
  /-- In the inner loop. -/
  | listening
  /-- Behind it. -/
  | sending
  /-- It has exited. -/
  | exited
  deriving DecidableEq, Repr

/-- What decides when a program sends. -/
structure ListenLoop where
  /-- When the turn began. -/
  tv1 : TimeVal
  /-- The clock when it was read last. -/
  tv2 : TimeVal
  /-- How long the next `wait_packet` waits. -/
  timeout : Int
  /-- `Interrupted`. -/
  interrupted : Bool
  /-- Where the program is. -/
  place : ListenAt
  /-- What the last pass heard. -/
  heard : Heard
  /-- The clock behind the last packet of the turn, if only silence has come since. -/
  packetAt : Option TimeVal
  deriving DecidableEq

/-- What may happen to a program. -/
inductive ListenAction where
  /-- `SIGINT`. -/
  | interrupt
  /-- A pass of the inner loop; then the clock is read, and `rand` is called for a hold-off. -/
  | pass (heard : Heard) (tv2 : TimeVal) (rand : Fin randRange)
  /-- The rest of the outer loop; then the clock is read for the next turn. -/
  | send (tv1 : TimeVal)
  deriving DecidableEq

namespace ListenTimes

variable (p : ListenTimes)

/-- How long the next `wait_packet` waits, if it is called. -/
def nextTimeout (heard : Heard) (elapsed : Int) (rand : Fin randRange) : Int :=
  let timeout := p.timeout - elapsed
  if heard = .packet ∧ timeout < p.holdoffMax then
    let holdoff := p.holdoffMin + rand.val % (p.holdoffMax - p.holdoffMin)
    if timeout < holdoff then holdoff else timeout
  else timeout

/-- A program that begins its first turn. -/
def start (tv1 : TimeVal) : ListenLoop where
  tv1 := tv1
  tv2 := tv1
  timeout := p.timeout
  interrupted := false
  place := .listening
  heard := .silence
  packetAt := none

/-- The program goes on. The clock does not go back, and a `wait_packet` that waits in vain takes
its time. -/
def step (s : ListenLoop) : ListenAction → Option ListenLoop
  | .interrupt => some { s with interrupted := true }
  | .pass heard tv2 rand =>
    if s.place = .listening ∧ s.tv2.micros ≤ tv2.micros ∧
        (heard = .silence → 1000 * s.timeout ≤ tv2.micros - s.tv2.micros) then
      let timeout := p.nextTimeout heard (elapsedMillis s.tv1 tv2) rand
      some { s with
        tv2
        timeout
        heard
        place := if s.interrupted = false ∧ 0 < timeout then .listening else .sending
        packetAt := match heard with
          | .silence => s.packetAt
          | .noise => none
          | .packet => some tv2 }
    else none
  | .send tv1 =>
    if s.place = .sending ∧ s.tv2.micros ≤ tv1.micros then
      some { s with
        tv1
        tv2 := tv1
        timeout := p.timeout
        place := if s.interrupted = true then .exited else .listening
        packetAt := none }
    else none

/-- A step as a relation. -/
def Step (s : ListenLoop) (action : ListenAction) (t : ListenLoop) : Prop :=
  p.step s action = some t

end ListenTimes

/-- Whether a step is a sending. -/
def ListenAction.isSend : ListenAction → Bool
  | .send _ => true
  | .interrupt | .pass .. => false

namespace ListenTimes

variable {p : ListenTimes} {s t : ListenLoop} {tv0 : TimeVal}

/-- After a packet there is at least a hold-off to wait. -/
theorem holdoffMin_le_nextTimeout (elapsed : Int) (rand : Fin randRange) :
    p.holdoffMin ≤ p.nextTimeout .packet elapsed rand := by
  have hlt := p.lt
  have hmod : 0 ≤ (rand.val : Int) % (p.holdoffMax - p.holdoffMin) :=
    Int.emod_nonneg _ (by omega)
  rw [nextTimeout]
  dsimp only
  split_ifs with hshort hless
  · omega
  · omega
  · rw [not_and] at hshort
    have := hshort rfl
    omega

theorem nextTimeout_of_ne {heard : Heard} (h : heard ≠ .packet) (elapsed : Int)
    (rand : Fin randRange) : p.nextTimeout heard elapsed rand = p.timeout - elapsed :=
  if_neg fun hand => h hand.1

/-- What every step keeps. -/
structure Paced (p : ListenTimes) (s : ListenLoop) : Prop where
  /-- The clock goes on in a turn. -/
  clock : s.tv1.micros ≤ s.tv2.micros
  /-- A program that has not been interrupted sends after a pass without a packet, when its turn is
  over. -/
  sending : s.place = .sending → s.interrupted = true ∨
    s.heard ≠ .packet ∧ p.timeout ≤ elapsedMillis s.tv1 s.tv2
  /-- Behind a packet it waits at least for a hold-off, or has waited. -/
  held : ∀ tv, s.packetAt = some tv → s.interrupted = true ∨
    1000 * p.holdoffMin ≤ s.tv2.micros - tv.micros ∨
      s.tv2 = tv ∧ p.holdoffMin ≤ s.timeout ∧ s.place = .listening

theorem paced_start (p : ListenTimes) (tv : TimeVal) : Paced p (p.start tv) where
  clock := Int.le_refl _
  sending := by simp [start]
  held := by simp [start]

theorem Paced.step (h : Paced p s) {action : ListenAction} (hstep : p.Step s action t) :
    Paced p t := by
  cases action with
  | interrupt =>
    cases hstep
    exact ⟨h.clock, fun _ => Or.inl rfl, fun _ _ => Or.inl rfl⟩
  | pass heard tv2 rand =>
    rw [Step, ListenTimes.step.eq_def, Option.ite_none_right_eq_some] at hstep
    obtain ⟨⟨hplace, hclock, hwait⟩, hstep⟩ := hstep
    cases hstep
    constructor
    case clock => exact h.clock.trans hclock
    case sending =>
      intro hsending
      dsimp only at hsending ⊢
      split_ifs at hsending with hgo
      rw [not_and_or, Bool.not_eq_false] at hgo
      refine hgo.imp_right fun hover => ?_
      rw [Int.not_lt] at hover
      have hne : heard ≠ .packet := by
        rintro rfl
        have := p.holdoffMin_le_nextTimeout (elapsedMillis s.tv1 tv2) rand
        have := p.pos
        omega
      rw [nextTimeout_of_ne hne] at hover
      exact ⟨hne, by omega⟩
    case held =>
      intro tv hpacket
      dsimp only at hpacket ⊢
      cases heard with
      | silence =>
        rcases h.held tv hpacket with hint | hlong | ⟨rfl, hmin, -⟩
        · exact Or.inl hint
        · exact Or.inr (Or.inl (by omega))
        · have := hwait rfl
          exact Or.inr (Or.inl (by omega))
      | noise => cases hpacket
      | packet =>
        obtain rfl := Option.some.inj hpacket
        have hmin := p.holdoffMin_le_nextTimeout (elapsedMillis s.tv1 tv2) rand
        by_cases hint : s.interrupted = true
        · exact Or.inl hint
        · refine Or.inr (Or.inr ⟨rfl, hmin, if_pos ⟨Bool.eq_false_iff.mpr hint, ?_⟩⟩)
          have := p.pos
          omega
  | send tv1 =>
    rw [Step, ListenTimes.step.eq_def, Option.ite_none_right_eq_some] at hstep
    obtain ⟨-, hstep⟩ := hstep
    cases hstep
    refine ⟨Int.le_refl _, fun hsending => ?_, by simp⟩
    dsimp only at hsending
    split_ifs at hsending

/-- A turn that is over has taken its time. -/
theorem Paced.turn_over (h : Paced p s) (hplace : s.place = .sending) :
    s.interrupted = true ∨ s.heard ≠ .packet ∧
      1000 * p.timeout - 1000 < s.tv2.micros - s.tv1.micros := by
  refine (h.sending hplace).imp_right fun ⟨hheard, hover⟩ => ⟨hheard, ?_⟩
  have := (elapsedMillis_bounds s.tv1 s.tv2).1
  omega

/-- However packets come in, a program that is not interrupted sends only when its turn is over and
its last pass has heard no packet; if only silence has followed a packet, that has lasted for the
shortest hold-off; and it sends no more than once a turn. -/
theorem listen_before_send (p : ListenTimes) {actions : List ListenAction}
    (h : Run p.Step (p.start tv0) actions s) :
    (s.place = .sending → s.interrupted = true ∨ s.heard ≠ .packet ∧
        1000 * p.timeout - 1000 < s.tv2.micros - s.tv1.micros ∧
        ∀ tv, s.packetAt = some tv → 1000 * p.holdoffMin ≤ s.tv2.micros - tv.micros) ∧
      (s.interrupted = false →
        actions.countP ListenAction.isSend * (1000 * p.timeout - 999) ≤
          s.tv1.micros - tv0.micros) := by
  have hrun : Paced p s ∧ (s.interrupted = false →
      actions.countP ListenAction.isSend * (1000 * p.timeout - 999) ≤
        s.tv1.micros - tv0.micros) := by
    refine h.keeps_labels (I := fun ls s => Paced p s ∧ (s.interrupted = false →
      ls.countP ListenAction.isSend * (1000 * p.timeout - 999) ≤ s.tv1.micros - tv0.micros)) ?_
      ⟨paced_start p tv0, fun _ => by simp [start]⟩
    rintro ls s action t ⟨hs, hrate⟩ hstep
    refine ⟨hs.step hstep, fun hint => ?_⟩
    cases action with
    | interrupt =>
      cases hstep
      cases hint
    | pass heard tv2 rand =>
      rw [Step, ListenTimes.step.eq_def, Option.ite_none_right_eq_some] at hstep
      obtain ⟨-, hstep⟩ := hstep
      cases hstep
      rw [List.countP_append]
      simpa [ListenAction.isSend] using hrate hint
    | send tv1 =>
      rw [Step, ListenTimes.step.eq_def, Option.ite_none_right_eq_some] at hstep
      obtain ⟨⟨hplace, hclock⟩, hstep⟩ := hstep
      cases hstep
      have hint : s.interrupted = false := hint
      have hbefore := hrate hint
      obtain ⟨-, hover⟩ := (hs.turn_over hplace).resolve_left (by simp [hint])
      rw [List.countP_append, List.countP_singleton]
      simp only [ListenAction.isSend, if_true, Nat.cast_add, Nat.cast_one, Int.add_mul, one_mul]
      omega
  obtain ⟨hpaced, hrate⟩ := hrun
  refine ⟨fun hplace => ?_, hrate⟩
  by_cases hint : s.interrupted = true
  · exact Or.inl hint
  obtain ⟨hheard, hover⟩ := (hpaced.turn_over hplace).resolve_left hint
  refine Or.inr ⟨hheard, hover, fun tv htv => ?_⟩
  refine ((hpaced.held tv htv).resolve_left hint).resolve_right fun hwaits => ?_
  rw [hplace] at hwaits
  cases hwaits.2.2

/-- A packet comes in late in a turn of `virtloc.c`, and the hold-off makes the turn longer. -/
def lateTurn : List ListenAction := [
  .pass .packet (.at 0 950000) (zeroTape 0),
  .pass .silence (.at 1 90000) (zeroTape 0)]

theorem listen_before_send_lateTurn :
    ∃ s, Run virtlocTimes.Step (virtlocTimes.start (.at 0 0)) lateTurn s ∧
      s.place = .sending ∧ s.interrupted = false ∧ s.heard ≠ .packet ∧
      100000 ≤ s.tv2.micros - 950000 := by
  obtain ⟨s, hrun, hplace, hint, hpacket⟩ := Run.exists_of_foldlM_some (f := virtlocTimes.step)
    (s := virtlocTimes.start (.at 0 0))
    (P := fun s => s.place = .sending ∧ s.interrupted = false ∧
      s.packetAt = some (.at 0 950000)) lateTurn (by decide +kernel)
  obtain ⟨hsends, -⟩ := listen_before_send virtlocTimes hrun
  obtain ⟨hheard, -, hsilent⟩ := (hsends hplace).resolve_left (by simp [hint])
  exact ⟨s, hrun, hplace, hint, hheard, hsilent _ hpacket⟩

end ListenTimes

end OldRadio.First
