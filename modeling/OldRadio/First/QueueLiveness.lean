import Mathlib.Algebra.BigOperators.Group.Finset.Piecewise
import Mathlib.Algebra.Order.BigOperators.Group.Finset
import Mathlib.Data.Fintype.Option
import OldRadio.First.QueueThreadRuns
import OldRadio.First.SendQueueMemory

/-!
# What has been begun comes to an end

When no more calls begin and no more packets come in, the threads do only so
many steps, in whatever order they run. Then every call has returned, every
packet has been sent and its memory freed, and the sender waits, unless a packet
that is too long has stopped the program; so the mutexes and the signal never
lock the threads up.
-/

namespace OldRadio.First

open Library

/-- The packet of a call that is not linked into the queue yet. -/
def Caller.packet : Caller → List (List UInt8)
  | .copied data _ | .filled data _ | .testing data _ | .heading data _ | .linking data _ => [data]
  | .idle | .tailing _ | .signalling | .moving _ | .unlocking | .measuring | .reading
  | .counting .. | .counted _ => []

/-- More than the steps that a call takes by itself, with so many packets about. -/
def Caller.left (backlog : ℕ) : Caller → ℕ
  | .copied .. => 25
  | .filled .. => 24
  | .testing .. => 23
  | .heading .. | .linking .. => 22
  | .tailing _ => 20
  -- the signal makes the sender run
  | .signalling => 19
  | .moving _ => 2
  | .unlocking => 1
  | .measuring => backlog + 4
  | .reading => backlog + 3
  | .counting _ count => backlog - count + 2
  | .counted _ => 1
  | .idle => 0

/-- The same for the sender and the packet that it has. -/
def SenderAt.left (signalled : Bool) : SenderAt → ℕ
  | .waiting => if signalled then 16 else 0
  | .done _ => 18
  | .sent _ => 17
  | .freed _ => 16
  | .locking => 15
  | .testing => 14
  | .taking _ => 13
  | .moved _ => 12
  | .unlocking _ => 11
  | .holding _ => 10
  | .sending _ => 9

/-- The same for the receiver. -/
def ReceiverAt.left : ReceiverAt → ℕ
  | .locking => 5
  | .receiving => 4
  | .handling => 3
  | .holdingOff => 2
  | .unlocking => 1
  | .listening => 0

theorem Caller.left_mono {backlog backlog' : ℕ} (h : backlog ≤ backlog') (c : Caller) :
    c.left backlog ≤ c.left backlog' := by
  cases c
  all_goals
    simp only [Caller.left]
    omega

namespace QueueThreads

variable {ι : Type}

/-- A step that finishes what has been begun: no call begins and no packet, and no wait is cut
short. -/
def Finishing (s : QueueThreads ι) : ThreadAction ι → Prop
  | .copy .. | .getSize _ | .registerRecv _ => False
  | .fill .. | .caller _ | .sender | .send _ => True
  | .wake spurious => spurious = false
  | .receiver result => s.receiver ≠ .listening ∧ (s.receiver = .holdingOff → result = 0)

/-- The packets that have been handed over and not been sent. -/
def backlog [Fintype ι] (s : QueueThreads ι) : ℕ :=
  ∑ p, (s.callers p).packet.length + (s.enqueued.length - s.transmitted.length)

/-- More than the steps that are left if nothing stops the program. -/
def work [Fintype ι] (s : QueueThreads ι) : ℕ :=
  20 * s.backlog + ∑ p, (s.callers p).left s.backlog + s.sender.left s.signalled + s.receiver.left

/-- More than the steps that are left. -/
def stepsLeft [Fintype ι] (s : QueueThreads ι) : ℕ :=
  if s.stopped = none then s.work + 1 else 0

/-! ## What the invariant says of the packets -/

section Sound

variable {s : QueueThreads ι} {p : Option ι}

theorem Sound.no_fault (h : Sound s) : s.fault = false := by
  obtain ⟨-, own, hand, cells, hordered, -⟩ := h
  exact hordered.safe

/-- The packets that are queued are among those that have not been sent. -/
theorem Sound.history (h : Sound s) :
    ∃ (hand : List (List UInt8)) (cells : List (Addr × List UInt8)),
      s.enqueued = s.transmitted ++ hand ++ cells.map Prod.snd ∧ Counts s cells := by
  obtain ⟨-, own, hand, cells, hordered, hcounts⟩ := h
  exact ⟨hand, cells, hordered.history, hcounts⟩

theorem Sound.length_le (h : Sound s) : s.transmitted.length ≤ s.enqueued.length := by
  obtain ⟨hand, cells, hhistory, -⟩ := h.history
  rw [hhistory]
  simp

/-- Who counts has counted no more than these. -/
theorem Sound.count_le (h : Sound s) {x : Option Addr} {count : ℕ}
    (hp : s.callers p = .counting x count) :
    count ≤ s.enqueued.length - s.transmitted.length := by
  obtain ⟨hand, cells, hhistory, hcounts⟩ := h.history
  have hcount := (hcounts.counting p x count hp).1
  have hlength := congrArg List.length hhistory
  rw [List.length_append, List.length_append, List.length_map] at hlength
  omega

end Sound

variable [DecidableEq ι]

/-- A finishing step as a relation. -/
def FinishStep (table : SymbolTable) (s : QueueThreads ι) (action : ThreadAction ι)
    (t : QueueThreads ι) : Prop :=
  s.Step table action t ∧ s.Finishing action

/-! ## Every finishing step brings the end nearer -/

section Progress

variable [Fintype ι] {table : SymbolTable} {s t : QueueThreads ι} {p : Option ι} {c c' : Caller}

/-- A sum over the threads when one is further in its call. -/
theorem sum_update (f : Caller → ℕ) (callers : Option ι → Caller) (p : Option ι) (c : Caller) :
    ∑ q, f (Function.update callers p c q) + f (callers p) = ∑ q, f (callers q) + f c := by
  have hcomp : ∀ q, f (Function.update callers p c q) =
      Function.update (fun q => f (callers q)) p (f c) q :=
    fun q => Function.apply_update (fun _ => f) callers p c q
  rw [Finset.sum_congr rfl fun q _ => hcomp q, Finset.sum_update_of_mem (Finset.mem_univ p),
    ← Finset.add_sum_erase _ (fun q => f (callers q)) (Finset.mem_univ p),
    Finset.sdiff_singleton_eq_erase]
  omega

/-- What a finishing step does: less work is left, and the packet of a call is still to be linked or
has been. -/
structure Progress (s t : QueueThreads ι) : Prop where
  less : t.work < s.work
  enqueued : s.enqueued <+: t.enqueued
  packets : ∀ p, (t.callers p).packet = (s.callers p).packet ∨
    t.enqueued = s.enqueued ++ (s.callers p).packet

/-- A thread goes on in its call. -/
theorem Progress.of_caller (hle : s.transmitted.length ≤ s.enqueued.length)
    (hp : s.callers p = c) (hcallers : t.callers = Function.update s.callers p c')
    (htransmitted : t.transmitted = s.transmitted) (hreceiver : t.receiver = s.receiver)
    (hpacket : c'.packet = c.packet ∧ t.enqueued = s.enqueued ∨
      c'.packet = [] ∧ t.enqueued = s.enqueued ++ c.packet)
    (hless : c'.left s.backlog + t.sender.left t.signalled <
      c.left s.backlog + s.sender.left s.signalled) : Progress s t := by
  subst hp
  have hpackets := sum_update (fun c => c.packet.length) s.callers p c'
  have hbacklog : t.backlog = s.backlog := by
    rw [backlog, backlog, hcallers, htransmitted]
    rcases hpacket with ⟨hsame, henqueued⟩ | ⟨hnil, henqueued⟩
    · rw [henqueued]
      rw [hsame] at hpackets
      omega
    · rw [henqueued, List.length_append]
      rw [hnil, List.length_nil] at hpackets
      omega
  have hleft := sum_update (Caller.left s.backlog) s.callers p c'
  constructor
  case less =>
    rw [work, work, hbacklog, hcallers, hreceiver]
    omega
  case enqueued =>
    rcases hpacket with ⟨-, henqueued⟩ | ⟨-, henqueued⟩
    · rw [henqueued]
    · rw [henqueued]
      exact List.prefix_append ..
  case packets =>
    intro q
    rcases eq_or_ne q p with rfl | hne
    · rw [hcallers, Function.update_self]
      exact hpacket.imp And.left And.right
    · rw [hcallers, Function.update_of_ne hne]
      exact Or.inl rfl

/-- The same, where nothing is signalled. -/
theorem Progress.of_caller_same (hle : s.transmitted.length ≤ s.enqueued.length)
    (hp : s.callers p = c) (hcallers : t.callers = Function.update s.callers p c')
    (htransmitted : t.transmitted = s.transmitted) (hreceiver : t.receiver = s.receiver)
    (hsender : t.sender = s.sender) (hsignalled : t.signalled = s.signalled)
    (hpacket : c'.packet = c.packet ∧ t.enqueued = s.enqueued ∨
      c'.packet = [] ∧ t.enqueued = s.enqueued ++ c.packet)
    (hless : c'.left s.backlog < c.left s.backlog) : Progress s t := by
  refine .of_caller hle hp hcallers htransmitted hreceiver hpacket ?_
  rw [hsender, hsignalled]
  exact Nat.add_lt_add_right hless _

omit [DecidableEq ι] in
/-- The sender goes on, and has sent no packet or one of those that are queued. -/
theorem Progress.of_sender (hcallers : t.callers = s.callers) (henqueued : t.enqueued = s.enqueued)
    (hreceiver : t.receiver = s.receiver) (hle : t.backlog ≤ s.backlog)
    (hless : 20 * t.backlog + t.sender.left t.signalled <
      20 * s.backlog + s.sender.left s.signalled) : Progress s t := by
  constructor
  case less =>
    have hleft : ∑ p, (s.callers p).left t.backlog ≤ ∑ p, (s.callers p).left s.backlog :=
      Finset.sum_le_sum fun p _ => Caller.left_mono hle _
    rw [work, work, hcallers, hreceiver]
    omega
  case enqueued => rw [henqueued]
  case packets => exact fun p => Or.inl (by rw [hcallers])

omit [DecidableEq ι] in
theorem backlog_congr (hcallers : t.callers = s.callers) (henqueued : t.enqueued = s.enqueued)
    (htransmitted : t.transmitted = s.transmitted) : t.backlog = s.backlog := by
  rw [backlog, backlog, hcallers, henqueued, htransmitted]

omit [DecidableEq ι] in
/-- The sender goes on and sends nothing. -/
theorem Progress.of_sender_same (hcallers : t.callers = s.callers)
    (henqueued : t.enqueued = s.enqueued) (htransmitted : t.transmitted = s.transmitted)
    (hreceiver : t.receiver = s.receiver)
    (hless : t.sender.left t.signalled < s.sender.left s.signalled) : Progress s t := by
  have hbacklog := backlog_congr hcallers henqueued htransmitted
  exact .of_sender hcallers henqueued hreceiver hbacklog.le (by rw [hbacklog]; omega)

omit [DecidableEq ι] in
/-- The receiver goes on. -/
theorem Progress.of_receiver (hcallers : t.callers = s.callers)
    (henqueued : t.enqueued = s.enqueued) (htransmitted : t.transmitted = s.transmitted)
    (hsender : t.sender = s.sender) (hsignalled : t.signalled = s.signalled)
    (hless : t.receiver.left < s.receiver.left) : Progress s t := by
  have hbacklog := backlog_congr hcallers henqueued htransmitted
  constructor
  case less =>
    rw [work, work, hbacklog, hcallers, hsender, hsignalled]
    omega
  case enqueued => rw [henqueued]
  case packets => exact fun p => Or.inl (by rw [hcallers])

/-! ### The statements -/

/-- The next statement of a thread in a call. -/
theorem Sound.progress_caller (h : Sound s) (ht : Sound t) (hstep : s.callerStep p = some t) :
    Progress s t := by
  have hle := h.length_le
  have hfault : ∀ u : QueueThreads ι, t ≠ { u with fault := true } := by
    rintro u rfl
    cases ht.no_fault
  rw [callerStep] at hstep
  split at hstep
  case h_1 data nqueue hp =>
    rw [Option.ite_none_right_eq_some] at hstep
    obtain ⟨-, hstep⟩ := hstep
    cases hstep
    exact .of_caller_same hle hp rfl rfl rfl rfl rfl (Or.inl ⟨rfl, rfl⟩) (by simp [Caller.left])
  case h_2 data nqueue hp =>
    split_ifs at hstep
    · cases hstep
      exact .of_caller_same hle hp rfl rfl rfl rfl rfl (Or.inl ⟨rfl, rfl⟩) (by simp [Caller.left])
    · cases hstep
      exact .of_caller_same hle hp rfl rfl rfl rfl rfl (Or.inl ⟨rfl, rfl⟩) (by simp [Caller.left])
  case h_3 data nqueue hp =>
    cases hstep
    exact .of_caller_same hle hp rfl rfl rfl rfl rfl (Or.inr ⟨rfl, rfl⟩) (by simp [Caller.left])
  case h_4 nqueue hp =>
    cases hstep
    exact .of_caller_same hle hp rfl rfl rfl rfl rfl (Or.inl ⟨rfl, rfl⟩) (by simp [Caller.left])
  case h_5 hp =>
    cases hstep
    refine .of_caller hle hp rfl rfl rfl (Or.inl ⟨rfl, rfl⟩) ?_
    -- a signal costs no more than what the call has left
    have hsignal : ∀ signalled, s.sender.left (signalled || s.sender == .waiting) ≤
        s.sender.left signalled + 16 := by
      intro signalled
      cases s.sender
      all_goals simp [SenderAt.left]
    have := hsignal s.signalled
    change 1 + _ < 19 + _
    dsimp only [setCaller]
    omega
  case h_6 data nqueue hp =>
    split at hstep
    case h_1 =>
      cases hstep
      exact absurd rfl (hfault s)
    case h_2 =>
      split at hstep
      case h_1 =>
        cases hstep
        exact absurd rfl (hfault s)
      case h_2 =>
        cases hstep
        exact .of_caller_same hle hp rfl rfl rfl rfl rfl (Or.inr ⟨rfl, rfl⟩)
          (by simp [Caller.left])
  case h_7 nqueue hp =>
    cases hstep
    exact .of_caller_same hle hp rfl rfl rfl rfl rfl (Or.inl ⟨rfl, rfl⟩) (by simp [Caller.left])
  case h_8 hp =>
    cases hstep
    exact .of_caller_same hle hp rfl rfl rfl rfl rfl (Or.inl ⟨rfl, rfl⟩) (by simp [Caller.left])
  case h_9 hp =>
    rw [Option.ite_none_right_eq_some] at hstep
    obtain ⟨-, hstep⟩ := hstep
    cases hstep
    exact .of_caller_same hle hp rfl rfl rfl rfl rfl (Or.inl ⟨rfl, rfl⟩) (Nat.lt_succ_self _)
  case h_10 hp =>
    cases hstep
    exact .of_caller_same hle hp rfl rfl rfl rfl rfl (Or.inl ⟨rfl, rfl⟩) (Nat.lt_succ_self _)
  case h_11 count hp =>
    cases hstep
    refine .of_caller_same hle hp rfl rfl rfl rfl rfl (Or.inl ⟨rfl, rfl⟩) ?_
    change 1 < s.backlog - count + 2
    omega
  case h_12 x count hp =>
    split at hstep
    case h_1 =>
      cases hstep
      exact absurd rfl (hfault s)
    case h_2 cell _ =>
      cases hstep
      refine .of_caller_same hle hp rfl rfl rfl rfl rfl (Or.inl ⟨rfl, rfl⟩) ?_
      have hcount := ht.count_le (Function.update_self p _ s.callers)
      change s.backlog - (count + 1) + 2 < s.backlog - count + 2
      have hqueued : s.enqueued.length - s.transmitted.length ≤ s.backlog := Nat.le_add_left _ _
      change count + 1 ≤ s.enqueued.length - s.transmitted.length at hcount
      omega
  case h_13 count hp =>
    cases hstep
    exact .of_caller_same hle hp rfl rfl rfl rfl rfl (Or.inl ⟨rfl, rfl⟩) (by simp [Caller.left])
  case h_14 => cases hstep
  case h_15 => cases hstep

omit [DecidableEq ι] in
/-- The next statement of `queue_sender`. -/
theorem Sound.progress_sender (ht : Sound t) (hstep : s.senderStep = some t) : Progress s t := by
  have hfault : ∀ u : QueueThreads ι, t ≠ { u with fault := true } := by
    rintro u rfl
    cases ht.no_fault
  have hrelease : ∀ a x, s.release a x = t → x.left s.signalled < s.sender.left s.signalled →
      Progress s t := by
    intro a x heq hless
    rw [release] at heq
    split_ifs at heq
    · exact absurd heq.symm (hfault s)
    · subst heq
      exact .of_sender_same rfl rfl rfl rfl hless
  rw [senderStep] at hstep
  split at hstep
  case h_1 hs =>
    rw [Option.ite_none_right_eq_some] at hstep
    obtain ⟨-, hstep⟩ := hstep
    cases hstep
    exact .of_sender_same rfl rfl rfl rfl (by rw [hs]; simp [SenderAt.left])
  case h_2 hs =>
    split at hstep
    case h_1 =>
      cases hstep
      exact .of_sender_same rfl rfl rfl rfl (by rw [hs]; simp [SenderAt.left])
    case h_2 =>
      cases hstep
      exact .of_sender_same rfl rfl rfl rfl (by rw [hs]; simp [SenderAt.left])
  case h_3 => cases hstep
  case h_4 xqueue hs =>
    split at hstep
    case h_1 =>
      cases hstep
      exact absurd rfl (hfault s)
    case h_2 =>
      cases hstep
      exact .of_sender_same rfl rfl rfl rfl (by rw [hs]; simp [SenderAt.left])
  case h_5 xqueue hs =>
    cases hstep
    exact .of_sender_same rfl rfl rfl rfl (by rw [hs]; simp [SenderAt.left])
  case h_6 xqueue hs =>
    cases hstep
    exact .of_sender_same rfl rfl rfl rfl (by rw [hs]; simp [SenderAt.left])
  case h_7 xqueue hs =>
    rw [Option.ite_none_right_eq_some] at hstep
    obtain ⟨-, hstep⟩ := hstep
    cases hstep
    exact .of_sender_same rfl rfl rfl rfl (by rw [hs]; simp [SenderAt.left])
  case h_8 => cases hstep
  case h_9 xqueue hs =>
    cases hstep
    exact .of_sender_same rfl rfl rfl rfl (by rw [hs]; simp [SenderAt.left])
  case h_10 xqueue hs =>
    split at hstep
    case h_1 =>
      cases hstep
      exact absurd rfl (hfault s)
    case h_2 cell _ =>
      exact hrelease _ _ (Option.some.inj hstep) (by rw [hs]; simp [SenderAt.left])
  case h_11 xqueue hs =>
    exact hrelease _ _ (Option.some.inj hstep) (by rw [hs]; simp [SenderAt.left])

omit [DecidableEq ι] in
/-- The call of `send_packet`. -/
theorem Sound.progress_send (ht : Sound t) {outcomes : List (Option ℕ)}
    (hstep : s.sendStep table outcomes = some t) :
    Progress s t ∨ ∃ stop, t = { s with stopped := some stop } := by
  rw [sendStep] at hstep
  split at hstep
  case h_1 xqueue hs =>
    split at hstep
    case h_1 =>
      cases hstep
      cases ht.no_fault
    case h_2 data _ =>
      split at hstep
      case h_1 =>
        cases hstep
        exact Or.inr ⟨_, rfl⟩
      case h_2 =>
        split_ifs at hstep
        · cases hstep
          exact Or.inr ⟨_, rfl⟩
        · split at hstep
          case h_1 => cases hstep
          case h_2 bytes _ =>
            cases hstep
            -- one packet less is to be sent
            have hlength : (s.transmitted ++ [data]).length ≤ s.enqueued.length := ht.length_le
            rw [List.length_append, List.length_singleton] at hlength
            have hbacklog : backlog { s with
                transmitted := s.transmitted ++ [data], wire := s.wire ++ [bytes]
                sender := .done xqueue } + 1 = s.backlog := by
              rw [backlog, backlog]
              dsimp only
              rw [List.length_append, List.length_singleton]
              omega
            refine Or.inl (.of_sender rfl rfl rfl (by omega) ?_)
            rw [hs, ← hbacklog]
            dsimp only [SenderAt.left]
            omega
  case h_2 => cases hstep

omit [DecidableEq ι] in
/-- The next statement of `queue_receiver`, if no packet begins. -/
theorem progress_receiver {result : ℕ} (hstep : s.receiverStep result = some t)
    (hlistening : s.receiver ≠ .listening) (hquiet : s.receiver = .holdingOff → result = 0) :
    Progress s t ∨ ∃ stop, t = { s with stopped := some stop } := by
  rw [receiverStep] at hstep
  split at hstep
  case h_1 hr => exact absurd hr hlistening
  case h_2 hr =>
    rw [Option.ite_none_right_eq_some] at hstep
    obtain ⟨-, hstep⟩ := hstep
    cases hstep
    exact Or.inl (.of_receiver rfl rfl rfl rfl rfl (by rw [hr]; simp [ReceiverAt.left]))
  case h_3 hr =>
    by_cases hlong : receiverBufferLen < result
    · rw [if_pos hlong] at hstep
      cases hstep
      exact Or.inr ⟨_, rfl⟩
    · rw [if_neg hlong] at hstep
      cases hstep
      refine Or.inl (.of_receiver rfl rfl rfl rfl rfl ?_)
      dsimp only
      rw [hr]
      split_ifs
      all_goals simp [ReceiverAt.left]
  case h_4 hr =>
    rw [Option.ite_none_right_eq_some] at hstep
    obtain ⟨-, hstep⟩ := hstep
    cases hstep
    exact Or.inl (.of_receiver rfl rfl rfl rfl rfl (by rw [hr]; simp [ReceiverAt.left]))
  case h_5 hr =>
    obtain rfl := hquiet hr
    cases hstep
    exact Or.inl (.of_receiver rfl rfl rfl rfl rfl (by rw [hr]; simp [ReceiverAt.left]))
  case h_6 hr =>
    cases hstep
    exact Or.inl (.of_receiver rfl rfl rfl rfl rfl (by rw [hr]; simp [ReceiverAt.left]))

/-- Every finishing step, if it does not stop the program. -/
theorem Sound.progress (h : Sound s) {action : ThreadAction ι}
    (hstep : s.FinishStep table action t) :
    Progress s t ∨ ∃ stop, t = { s with stopped := some stop } := by
  obtain ⟨hstep, hfinishing⟩ := hstep
  have ht := (h.leads hstep).1
  replace hstep := (step_iff.mp hstep).2
  cases action with
  | copy p data qdata => cases hfinishing
  | fill p nqueue =>
    rw [act] at hstep
    split at hstep
    case h_1 data qdata hp =>
      rw [Option.ite_none_right_eq_some] at hstep
      obtain ⟨-, hstep⟩ := hstep
      cases hstep
      exact Or.inl (.of_caller_same h.length_le hp rfl rfl rfl rfl rfl (Or.inl ⟨rfl, rfl⟩)
        (by simp [Caller.left]))
    case h_2 => cases hstep
  | getSize p => cases hfinishing
  | caller p => exact Or.inl (h.progress_caller ht hstep)
  | sender => exact Or.inl (ht.progress_sender hstep)
  | send outcomes => exact ht.progress_send hstep
  | wake spurious =>
    rw [act, Option.ite_none_right_eq_some] at hstep
    obtain ⟨⟨hs, hwake⟩, hstep⟩ := hstep
    obtain rfl : spurious = false := hfinishing
    have hsignalled : s.signalled = true := hwake.resolve_right (by simp)
    cases hstep
    refine Or.inl (.of_sender_same rfl rfl rfl rfl ?_)
    rw [hs, hsignalled]
    simp [SenderAt.left]
  | receiver result => exact progress_receiver hstep hfinishing.1 hfinishing.2
  | registerRecv handler => cases hfinishing

/-- So there are fewer steps left. -/
theorem Sound.stepsLeft_lt (h : Sound s) {action : ThreadAction ι}
    (hstep : s.FinishStep table action t) : t.stepsLeft < s.stepsLeft := by
  rw [stepsLeft, stepsLeft, if_pos (step_iff.mp hstep.1).1]
  rcases h.progress hstep with hprogress | ⟨stop, rfl⟩
  · have hless := hprogress.less
    split_ifs
    · omega
    · omega
  · rw [if_neg (Option.some_ne_none stop)]
    omega

end Progress

/-! ## Where no finishing step is left -/

section Stuck

variable {s : QueueThreads ι} {p : Option ι}

/-- Who holds `queue_send_mutex` goes on. -/
theorem callerStep_ne_none (hp : (s.callers p).holds = true) : s.callerStep p ≠ none := by
  unfold callerStep
  cases hc : s.callers p with
  | idle | copied _ _ | filled _ _ | measuring =>
    rw [hc] at hp
    cases hp
  | testing data nqueue =>
    dsimp only
    split_ifs
    · exact Option.some_ne_none _
    · exact Option.some_ne_none _
  | linking data nqueue =>
    dsimp only
    split
    · exact Option.some_ne_none _
    · split
      · exact Option.some_ne_none _
      · exact Option.some_ne_none _
  | counting x count =>
    cases x with
    | none => exact Option.some_ne_none _
    | some x =>
      dsimp only
      split
      · exact Option.some_ne_none _
      · exact Option.some_ne_none _
  | heading _ _ | tailing _ | signalling | moving _ | unlocking | reading | counted _ =>
    exact Option.some_ne_none _

omit [DecidableEq ι] in
/-- So does the sender, if it does not wait for a mutex or a signal. -/
theorem senderStep_ne_none (hlocking : s.sender = .locking → s.sendMutex = none)
    (hholding : ∀ xqueue, s.sender = .holding xqueue → s.holdoffMutex = none)
    (hsending : ∀ xqueue, s.sender ≠ .sending xqueue)
    (hwaiting : s.sender ≠ .waiting) : s.senderStep ≠ none := by
  unfold senderStep
  cases hs : s.sender with
  | locking =>
    dsimp only
    rw [if_pos (hlocking hs)]
    exact Option.some_ne_none _
  | waiting => exact absurd hs hwaiting
  | holding xqueue =>
    dsimp only
    rw [if_pos (hholding xqueue hs)]
    exact Option.some_ne_none _
  | sending xqueue => exact absurd hs (hsending xqueue)
  | testing | taking _ | sent _ =>
    dsimp only
    split
    · exact Option.some_ne_none _
    · exact Option.some_ne_none _
  | moved _ | unlocking _ | done _ | freed _ => exact Option.some_ne_none _

omit [DecidableEq ι] in
/-- `send_packet` returns, at the latest when `write` fails, or the program stops. -/
theorem exists_sendStep_ne_none (table : SymbolTable) {xqueue : Addr}
    (hs : s.sender = .sending xqueue) : ∃ outcomes, s.sendStep table outcomes ≠ none := by
  refine ⟨[none], ?_⟩
  unfold sendStep
  rw [hs]
  dsimp only
  split
  case h_1 => exact Option.some_ne_none _
  case h_2 =>
    split
    case h_1 => exact Option.some_ne_none _
    case h_2 frame _ =>
      split_ifs
      · exact Option.some_ne_none _
      · have hreturns : (SymbolTable.writeLoop frame 0 [none]).1 ≠ none := by
          rw [SymbolTable.writeLoop]
          split_ifs
          · exact Option.some_ne_none _
          · exact Option.some_ne_none _
        split
        case h_1 hwrite =>
          rw [hwrite] at hreturns
          exact absurd rfl hreturns
        case h_2 => exact Option.some_ne_none _

/-- Nothing that has been begun can go on. -/
def Stuck (table : SymbolTable) (s : QueueThreads ι) : Prop :=
  ∀ action t, ¬ s.FinishStep table action t

variable {table : SymbolTable}

theorem Stuck.act_eq_none (h : s.Stuck table) (hgoing : s.stopped = none)
    (action : ThreadAction ι) (hf : s.Finishing action) : s.act table action = none := by
  by_contra hne
  obtain ⟨t, ht⟩ := Option.ne_none_iff_exists'.mp hne
  exact h action t ⟨(if_pos hgoing).trans ht, hf⟩

/-- The program has not stopped, and nothing that has been begun can go on. -/
structure AtRest (table : SymbolTable) (s : QueueThreads ι) : Prop where
  stuck : s.Stuck table
  going : s.stopped = none

theorem AtRest.caller (h : s.AtRest table) (p : Option ι) : s.callerStep p = none :=
  h.stuck.act_eq_none h.going (.caller p) trivial

theorem AtRest.sender (h : s.AtRest table) : s.senderStep = none :=
  h.stuck.act_eq_none h.going .sender trivial

/-- The sender is not in `send_packet`. -/
theorem AtRest.not_sending (h : s.AtRest table) (xqueue : Addr) : s.sender ≠ .sending xqueue := by
  intro hs
  obtain ⟨outcomes, hsend⟩ := exists_sendStep_ne_none table hs
  exact hsend (h.stuck.act_eq_none h.going (.send outcomes) trivial)

theorem AtRest.receiver (h : s.AtRest table) (hr : s.receiver ≠ .listening) :
    s.receiverStep 0 = none :=
  h.stuck.act_eq_none h.going (.receiver 0) ⟨hr, fun _ => rfl⟩

/-- Nobody is in a section. -/
theorem AtRest.sendMutex_eq_none (h : s.AtRest table) (hexclusive : Exclusive s) :
    s.sendMutex = none := by
  refine hexclusive.send.eq_none fun q => Bool.eq_false_iff.mpr fun hin => ?_
  cases q with
  | caller p => exact callerStep_ne_none hin (h.caller p)
  | sender =>
    have hholds : s.sender.holds = true := hin
    refine senderStep_ne_none (fun hs => ?_) (fun xqueue hs => ?_) h.not_sending
      (fun hs => ?_) h.sender
    all_goals
      rw [hs] at hholds
      cases hholds

/-- Every call has returned. -/
theorem AtRest.callers_eq_idle (h : s.AtRest table) (hexclusive : Exclusive s)
    (hmem : {a | s.mem a ≠ none}.Finite) (p : Option ι) : s.callers p = .idle := by
  have hfree := h.sendMutex_eq_none hexclusive
  have hstuck := h.caller p
  cases hc : s.callers p with
  | idle => rfl
  | copied data qdata =>
    -- there is memory left for the cell
    obtain ⟨nqueue, hnew⟩ := hmem.exists_notMem
    have hnew : s.mem nqueue = none := not_not.mp hnew
    have hfill := h.stuck.act_eq_none h.going (.fill p nqueue) trivial
    rw [act, hc] at hfill
    dsimp only at hfill
    rw [if_pos hnew] at hfill
    cases hfill
  | filled data nqueue =>
    rw [callerStep, hc] at hstuck
    dsimp only at hstuck
    rw [if_pos hfree] at hstuck
    cases hstuck
  | measuring =>
    rw [callerStep, hc] at hstuck
    dsimp only at hstuck
    rw [if_pos hfree] at hstuck
    cases hstuck
  | testing _ _ | heading _ _ | tailing _ | signalling | linking _ _ | moving _ | unlocking
  | reading | counting _ _ | counted _ =>
    exact absurd hstuck (callerStep_ne_none (by rw [hc]; rfl))

/-- The sender does not hold `queue_holdoff_mutex`. -/
theorem AtRest.not_onAir (h : s.AtRest table) : s.sender.onAir = false := by
  rw [Bool.eq_false_iff]
  intro hair
  refine senderStep_ne_none (fun hs => ?_) (fun xqueue hs => ?_) h.not_sending
    (fun hs => ?_) h.sender
  all_goals
    rw [hs] at hair
    cases hair

/-- Nobody holds it, if the receiver does not. -/
theorem AtRest.holdoffMutex_eq_none (h : s.AtRest table) (hexclusive : Exclusive s)
    (hhearing : s.receiver.hearing = false) : s.holdoffMutex = none := by
  refine hexclusive.holdoff.eq_none fun q => ?_
  cases q with
  | sender => exact h.not_onAir
  | receiver => exact hhearing

/-- The receiver waits for a packet. -/
theorem AtRest.receiver_eq_listening (h : s.AtRest table) (hexclusive : Exclusive s)
    (hidle : s.callers none = .idle) : s.receiver = .listening := by
  by_contra hr
  have hstuck := h.receiver hr
  rw [receiverStep] at hstuck
  split at hstuck
  case h_2 hlocking =>
    rw [if_pos (h.holdoffMutex_eq_none hexclusive (by rw [hlocking]; rfl))] at hstuck
    cases hstuck
  case h_4 =>
    rw [if_pos hidle] at hstuck
    cases hstuck
  all_goals cases hstuck

/-- The sender waits for a signal, and none has come. -/
theorem AtRest.sender_eq_waiting (h : s.AtRest table) (hexclusive : Exclusive s)
    (hlistening : s.receiver = .listening) : s.sender = .waiting ∧ s.signalled = false := by
  have hwaiting : s.sender = .waiting := by
    by_contra hne
    refine senderStep_ne_none (fun _ => h.sendMutex_eq_none hexclusive) (fun _ _ => ?_)
      h.not_sending hne h.sender
    exact h.holdoffMutex_eq_none hexclusive (by rw [hlistening]; rfl)
  refine ⟨hwaiting, ?_⟩
  rw [Bool.eq_false_iff]
  intro hsignalled
  have hwake := h.stuck.act_eq_none h.going (.wake false) rfl
  rw [act, if_pos ⟨hwaiting, Or.inl hsignalled⟩] at hwake
  cases hwake

end Stuck

/-! ## In every run -/

section Runs

variable {table : SymbolTable} {s t : QueueThreads ι} {actions finishing : List (ThreadAction ι)}

/-- All that had been begun in a state is done in another one. -/
structure Settled (s t : QueueThreads ι) : Prop where
  /-- Every call has returned, -/
  callers : ∀ p, t.callers p = .idle
  /-- the sender waits, -/
  sender : t.sender = .waiting
  /-- and so does the receiver. -/
  receiver : t.receiver = .listening
  /-- The packets that were queued have been sent, -/
  enqueued : s.enqueued <+: t.transmitted
  /-- and those that were about to be. -/
  packets : ∀ p, ∀ data ∈ (s.callers p).packet, data ∈ t.transmitted
  /-- Nothing is queued, -/
  transmitted : t.transmitted = t.enqueued
  /-- and nothing is allocated. -/
  mem : ∀ a, t.mem a = none

theorem run_of_finishing (h : Run (Step table) (threadsStart ι) actions s)
    (hrun : Run (FinishStep table) s finishing t) :
    Run (Step table) (threadsStart ι) (actions ++ finishing) t :=
  h.append (hrun.mono fun _ _ _ => And.left)

/-- A packet that was about to be linked still is, or has been. -/
theorem packets_of_finishing [Fintype ι] (hs : Sound s)
    (hrun : Run (FinishStep table) s finishing t) :
    s.enqueued <+: t.enqueued ∧
      ∀ p, ∀ data ∈ (s.callers p).packet, data ∈ (t.callers p).packet ∨ data ∈ t.enqueued := by
  refine (hrun.keeps (I := fun u => Sound u ∧ s.enqueued <+: u.enqueued ∧
    ∀ p, ∀ data ∈ (s.callers p).packet, data ∈ (u.callers p).packet ∨ data ∈ u.enqueued) ?_
    ⟨hs, List.prefix_rfl, fun _ _ => Or.inl⟩).2
  rintro u action v ⟨hu, hfirst, hpackets⟩ hstep
  refine ⟨(hu.leads hstep.1).1, ?_⟩
  obtain hprogress | ⟨stop, rfl⟩ := hu.progress hstep
  case inr => exact ⟨hfirst, hpackets⟩
  refine ⟨hfirst.trans hprogress.enqueued, fun p data hdata => ?_⟩
  rcases hpackets p data hdata with hheld | hqueued
  · rcases hprogress.packets p with hsame | hlinked
    · exact Or.inl (hsame ▸ hheld)
    · exact Or.inr (hlinked ▸ List.mem_append_right _ hheld)
  · exact Or.inr (hprogress.enqueued.subset hqueued)

theorem AtRest.settled [Fintype ι] (h : t.AtRest table)
    (hs : Run (Step table) (threadsStart ι) actions s)
    (hrun : Run (FinishStep table) s finishing t) : Settled s t := by
  obtain ⟨⟨hexclusive, -⟩, sections, hsections⟩ := sound_of_run (run_of_finishing hs hrun)
  obtain ⟨own, hand, cells, hordered, hleak⟩ := noLeak_of_run hsections
  have hidle := h.callers_eq_idle hexclusive (finite_mem_of_run hsections)
  have hlistening := h.receiver_eq_listening hexclusive (hidle none)
  obtain ⟨hwaiting, hsignalled⟩ := h.sender_eq_waiting hexclusive hlistening
  have hsender : t.sendQueue.sender = .waiting := congrArg SenderAt.sender hwaiting
  -- a sender that waits and has not been signalled waits for an empty queue
  have hdue : t.sendQueue.signalled = false := by
    change (t.signalled || t.signalDue) = false
    rw [hsignalled, signalDue_of_none (h.sendMutex_eq_none hexclusive)]
    rfl
  obtain rfl : cells = [] := (hordered.awake hsender).resolve_right (by simp [hdue])
  have hhand : hand = [] := by
    have hhas := hordered.sender
    rw [hsender] at hhas
    cases hhas
    rfl
  have hhistory : t.enqueued = t.transmitted ++ hand ++ [] := hordered.history
  have hsent : t.transmitted = t.enqueued := by
    rw [hhistory, hhand]
    simp
  obtain ⟨hfirst, hpackets⟩ := packets_of_finishing (sound_of_run hs).1 hrun
  refine ⟨hidle, hwaiting, hlistening, hsent ▸ hfirst, fun p data hdata => ?_, hsent, ?_⟩
  · rcases hpackets p data hdata with hheld | hqueued
    · rw [hidle p] at hheld
      cases hheld
    · exact hsent ▸ hqueued
  · exact hordered.mem_eq_none hleak (fun p => congrArg Caller.producer (hidle p)) hordered.linked
      (Or.inr hsender)

/-- From every state that the threads reach, what has been begun comes to an end, in whatever order
the threads run: there are only so many steps, and where none is left every call has returned, all
packets are sent, and their memory is freed, unless a packet that is too long for `send_packet` or
for the receiver has stopped the program. -/
theorem threads_settle [Fintype ι] (h : Run (Step table) (threadsStart ι) actions s) :
    (∀ finishing t, Run (FinishStep table) s finishing t → finishing.length ≤ s.stepsLeft ∧
        (t.Stuck table → Settled s t ∨
          ∃ stop, t.stopped = some stop ∧ StopReason table (actions ++ finishing) t stop)) ∧
      ∃ finishing t, Run (FinishStep table) s finishing t ∧ t.Stuck table := by
  have hs := (sound_of_run h).1
  have hless : ∀ (u : QueueThreads ι) action v, Sound u → FinishStep table u action v →
      Sound v ∧ v.stepsLeft < u.stepsLeft := fun u action v hu hstep =>
    ⟨(hu.leads hstep.1).1, hu.stepsLeft_lt hstep⟩
  refine ⟨fun finishing t hrun => ⟨?_, fun ht => ?_⟩, Run.exists_stuck hless hs⟩
  · exact (Nat.le_add_right ..).trans (hrun.length_add_le hless hs)
  · cases hstop : t.stopped with
    | none => exact Or.inl (AtRest.settled ⟨ht, hstop⟩ h hrun)
    | some stop =>
      exact Or.inr ⟨stop, rfl, stopReason_of_run (run_of_finishing h hrun) hstop⟩

/-- A packet has been sent, another one is about to be queued, and the receiver hears a third. -/
def midway : List (ThreadAction Bool) :=
  heldOff ++ [.copy (some false) [3] 2, .receiver 1, .sender, .receiver 0]

/-- However the threads go on from there, both packets are sent in the end, if what the receiver
hears has room in its buffer. -/
theorem threads_settle_midway :
    ∃ s, Run (Step serialSymbols) (threadsStart Bool) midway s ∧ s.transmitted = [[1, 2]] ∧
      ∃ finishing t, Run (FinishStep serialSymbols) s finishing t ∧ t.Stuck serialSymbols ∧
        ([3] ∈ t.transmitted ∨ ∃ stop, t.stopped = some stop ∧
          StopReason serialSymbols (midway ++ finishing) t stop) := by
  obtain ⟨s, hrun, hsent, hcopied⟩ := Run.exists_of_foldlM_some (f := step serialSymbols)
    (s := threadsStart Bool) (P := fun s => s.transmitted = [[1, 2]] ∧
      s.callers (some false) = .copied [3] 2) midway (by decide +kernel)
  obtain ⟨hall, finishing, t, hfinish, hstuck⟩ := threads_settle hrun
  refine ⟨s, hrun, hsent, finishing, t, hfinish, hstuck, ?_⟩
  refine ((hall finishing t hfinish).2 hstuck).imp_left fun hsettled => ?_
  refine hsettled.packets (some false) [3] ?_
  rw [hcopied]
  exact List.mem_singleton_self _

end Runs

end QueueThreads

end OldRadio.First
