import OldRadio.First.QueueStatements

/-!
# Runs of the threads

However the statements of the threads are interleaved, the send queue goes
through the steps of its sections; so what holds of their runs holds of all.
`send_packet` is not called while the receiver holds its mutex, only packets that
are too long stop the program, and `queue_send_get_size` returns how many packets
are queued.
-/

namespace OldRadio.First

open Library

namespace QueueThreads

variable {ι : Type} [DecidableEq ι] {table : SymbolTable} {s t : QueueThreads ι}
  {p : Option ι} {actions : List (ThreadAction ι)}

/-- In every run the mutexes do their work, and the send queue has run, too. -/
theorem sound_of_run (h : Run (Step table) (threadsStart ι) actions s) :
    Sound s ∧ ∃ sections, Run SendQueue.Step (queueStart (Option ι)) sections s.sendQueue := by
  refine h.keeps (I := fun s => Sound s ∧
    ∃ sections, Run SendQueue.Step (queueStart (Option ι)) sections s.sendQueue) ?_
    ⟨sound_threadsStart, [], .nil _⟩
  rintro s action t ⟨hsound, sections, hrun⟩ hstep
  obtain ⟨ht, heq | ⟨section', hsection⟩⟩ := hsound.leads hstep
  · exact ⟨ht, sections, heq ▸ hrun⟩
  · exact ⟨ht, sections ++ [section'], hrun.snoc hsection⟩

/-! ## What is sent, and what stops the program -/

/-- Nothing is sent, and the program goes on. -/
structure Quiet (s t : QueueThreads ι) : Prop where
  transmitted : t.transmitted = s.transmitted
  wire : t.wire = s.wire
  stopped : t.stopped = s.stopped

theorem quiet_caller (h : s.callerStep p = some t) : Quiet s t := by
  rw [callerStep] at h
  split at h
  case h_1 | h_9 =>
    rw [Option.ite_none_right_eq_some] at h
    cases h.2
    exact ⟨rfl, rfl, rfl⟩
  case h_2 =>
    split_ifs at h
    all_goals
      cases h
      exact ⟨rfl, rfl, rfl⟩
  case h_6 =>
    split at h
    · cases h
      exact ⟨rfl, rfl, rfl⟩
    · split at h
      all_goals
        cases h
        exact ⟨rfl, rfl, rfl⟩
  case h_12 =>
    split at h
    all_goals
      cases h
      exact ⟨rfl, rfl, rfl⟩
  case h_14 | h_15 => cases h
  all_goals
    cases h
    exact ⟨rfl, rfl, rfl⟩

omit [DecidableEq ι] in
theorem quiet_release (s : QueueThreads ι) (a : Addr) (x : SenderAt) :
    Quiet s (s.release a x) := by
  rw [release]
  split_ifs
  · exact ⟨rfl, rfl, rfl⟩
  · exact ⟨rfl, rfl, rfl⟩

omit [DecidableEq ι] in
theorem quiet_sender (h : s.senderStep = some t) : Quiet s t := by
  rw [senderStep] at h
  split at h
  case h_1 | h_7 =>
    rw [Option.ite_none_right_eq_some] at h
    cases h.2
    exact ⟨rfl, rfl, rfl⟩
  case h_2 | h_4 =>
    split at h
    all_goals
      cases h
      exact ⟨rfl, rfl, rfl⟩
  case h_3 | h_8 => cases h
  case h_10 =>
    split at h
    · cases h
      exact ⟨rfl, rfl, rfl⟩
    · cases h
      exact quiet_release ..
  case h_11 =>
    cases h
    exact quiet_release ..
  all_goals
    cases h
    exact ⟨rfl, rfl, rfl⟩

omit [DecidableEq ι] in
/-- What `queue_receiver` does: it goes on, or it gets more than it has room for. -/
theorem quiet_receiver {result : Nat} (h : s.receiverStep result = some t) :
    Quiet s t ∨ receiverBufferLen < result ∧ t = { s with stopped := some .buffer } := by
  rw [receiverStep] at h
  split at h
  case h_1 =>
    split_ifs at h
    all_goals
      cases h
      exact Or.inl ⟨rfl, rfl, rfl⟩
  case h_3 =>
    by_cases hlong : receiverBufferLen < result
    · rw [if_pos hlong] at h
      cases h
      exact Or.inr ⟨hlong, rfl⟩
    · rw [if_neg hlong] at h
      cases h
      exact Or.inl ⟨rfl, rfl, rfl⟩
  case h_2 | h_4 =>
    rw [Option.ite_none_right_eq_some] at h
    cases h.2
    exact Or.inl ⟨rfl, rfl, rfl⟩
  all_goals
    cases h
    exact Or.inl ⟨rfl, rfl, rfl⟩

/-- What goes out for a packet: the head of its frame. -/
def FrameHead (table : SymbolTable) (bytes data : List UInt8) : Prop :=
  ∃ frame, table.sendFrame data = .ok frame ∧ bytes <+: frame

/-- A packet is sent, as far as `write` takes it. -/
def Sends (table : SymbolTable) (s t : QueueThreads ι) : Prop :=
  ∃ data bytes, FrameHead table bytes data ∧ t.transmitted = s.transmitted ++ [data] ∧
    t.wire = s.wire ++ [bytes] ∧ t.stopped = s.stopped

/-- Why the program has stopped. -/
def StopReason (table : SymbolTable) (actions : List (ThreadAction ι)) (s : QueueThreads ι) :
    QueueStop → Prop
  | .assertion abort =>
    abort = .dataLength ∧ ∃ data ∈ s.enqueued, maxPacketBytes < data.length
  | .sendBuffer =>
    ∃ data ∈ s.enqueued, ∃ frame, table.sendFrame data = .ok frame ∧
      maxPacketSymbols < frame.length
  | .buffer => ∃ result, receiverBufferLen < result ∧ .receiver result ∈ actions

/-- What `send_packet` does: it sends the head of a frame, or it stops the program because of a
packet that is too long. -/
theorem Sound.sent (h : Sound s) {outcomes : List (Option Nat)}
    (hstep : s.sendStep table outcomes = some t) (actions : List (ThreadAction ι)) :
    Sends table s t ∨
    ∃ stop, t = { s with stopped := some stop } ∧ StopReason table actions s stop := by
  obtain ⟨hexclusive, own, hand, cells, hordered, hcounts⟩ := h
  rw [sendStep] at hstep
  split at hstep
  case h_1 xqueue hs =>
    obtain ⟨data, hdata, rfl, -⟩ := leads_sending hexclusive hordered hcounts hs
    have hhistory : s.enqueued = s.transmitted ++ [data] ++ cells.map Prod.snd := hordered.history
    have hmem : data ∈ s.enqueued := by
      rw [hhistory]
      simp
    rw [hdata] at hstep
    dsimp only at hstep
    split at hstep
    case h_1 abort hframe =>
      cases hstep
      refine Or.inr ⟨.assertion abort, rfl, ?_⟩
      by_cases hlong : maxPacketBytes < data.length
      · rw [SymbolTable.sendFrame, if_pos hlong] at hframe
        exact ⟨(Except.error.inj hframe).symm, data, hmem, hlong⟩
      · obtain ⟨frame, hok, -⟩ := SymbolTable.sendFrame_ok (t := table) (Nat.not_lt.mp hlong)
        cases hok.symm.trans hframe
    case h_2 frame hframe =>
      by_cases hlong : maxPacketSymbols < frame.length
      · rw [if_pos hlong] at hstep
        cases hstep
        exact Or.inr ⟨.sendBuffer, rfl, data, hmem, frame, hframe, hlong⟩
      · rw [if_neg hlong] at hstep
        split at hstep
        case h_1 => cases hstep
        case h_2 done bytes hwrite =>
          cases hstep
          have hhead := (SymbolTable.writeLoop_wire frame 0 outcomes).1
          rw [hwrite] at hhead
          exact Or.inl ⟨data, bytes, ⟨frame, hframe, hhead⟩, rfl, rfl, rfl⟩
  case h_2 => cases hstep

/-- What any step does. -/
theorem Sound.quiet_or (h : Sound s) {action : ThreadAction ι} (hstep : s.Step table action t) :
    Quiet s t ∨ Sends table s t ∨
    ∃ stop, t = { s with stopped := some stop } ∧ StopReason table [action] s stop := by
  replace hstep := (step_iff.mp hstep).2
  cases action with
  | copy p data qdata =>
    rw [act, Option.ite_none_right_eq_some] at hstep
    cases hstep.2
    exact Or.inl ⟨rfl, rfl, rfl⟩
  | fill p nqueue =>
    rw [act] at hstep
    split at hstep
    case h_1 =>
      rw [Option.ite_none_right_eq_some] at hstep
      cases hstep.2
      exact Or.inl ⟨rfl, rfl, rfl⟩
    case h_2 => cases hstep
  | getSize p =>
    rw [act, Option.ite_none_right_eq_some] at hstep
    cases hstep.2
    split_ifs
    · exact Or.inl ⟨rfl, rfl, rfl⟩
    · exact Or.inl ⟨rfl, rfl, rfl⟩
  | caller p => exact Or.inl (quiet_caller hstep)
  | sender => exact Or.inl (quiet_sender hstep)
  | send outcomes => exact Or.inr (h.sent hstep _)
  | wake spurious =>
    rw [act, Option.ite_none_right_eq_some] at hstep
    cases hstep.2
    exact Or.inl ⟨rfl, rfl, rfl⟩
  | receiver result =>
    rcases quiet_receiver hstep with hquiet | ⟨hlong, ht⟩
    · exact Or.inl hquiet
    · exact Or.inr (Or.inr ⟨.buffer, ht, result, hlong, List.mem_singleton_self _⟩)
  | registerRecv handler =>
    cases hstep
    exact Or.inl ⟨rfl, rfl, rfl⟩

/-- For every packet that was sent the head of its frame went out. -/
theorem wire_of_run (h : Run (Step table) (threadsStart ι) actions s) :
    List.Forall₂ (FrameHead table) s.wire s.transmitted := by
  refine (h.keeps (I := fun s => Sound s ∧ List.Forall₂ (FrameHead table) s.wire s.transmitted) ?_
    ⟨sound_threadsStart, .nil⟩).2
  rintro s action t ⟨hsound, hwire⟩ hstep
  refine ⟨(hsound.leads hstep).1, ?_⟩
  rcases hsound.quiet_or hstep with hquiet | ⟨data, bytes, hhead, htransmitted, hbytes, -⟩ |
    ⟨stop, rfl, -⟩
  · rw [hquiet.wire, hquiet.transmitted]
    exact hwire
  · rw [htransmitted, hbytes]
    exact List.rel_append hwire (.cons hhead .nil)
  · exact hwire

/-- The program stops only for a packet that is too long to be sent, or for one that is too long for
the receiver. -/
theorem stopReason_of_run (h : Run (Step table) (threadsStart ι) actions s) {stop : QueueStop}
    (hstop : s.stopped = some stop) : StopReason table actions s stop := by
  refine (h.keeps_labels (I := fun actions s => Sound s ∧
    ∀ stop, s.stopped = some stop → StopReason table actions s stop) ?_
    ⟨sound_threadsStart, fun _ heq => by cases heq⟩).2 stop hstop
  rintro before s action t ⟨hsound, -⟩ hstep
  refine ⟨(hsound.leads hstep).1, fun stop hstop => ?_⟩
  have hgoing : s.stopped = none := (step_iff.mp hstep).1
  rcases hsound.quiet_or hstep with hquiet | ⟨-, -, -, -, -, hsame⟩ | ⟨stop', rfl, hreason⟩
  · rw [hquiet.stopped, hgoing] at hstop
    cases hstop
  · rw [hsame, hgoing] at hstop
    cases hstop
  · obtain rfl := Option.some.inj hstop
    cases stop' with
    | assertion abort => exact hreason
    | sendBuffer => exact hreason
    | buffer =>
      obtain ⟨result, hlong, hmem⟩ := hreason
      exact ⟨result, hlong, List.mem_append_right _ hmem⟩

/-! ## Every run -/

/-- A run of the threads, statement by statement, is one of the sections of the send queue; one
thread at a time is in a section; `send_packet` is not called while the receiver holds
`queue_holdoff_mutex`; what it was called with are the first of the packets that were queued, and
what went out for each is the head of its frame; and no memory is used that is not allocated. -/
theorem threads_run_sections (h : Run (Step table) (threadsStart ι) actions s) :
    (∃ sections, Run SendQueue.Step (queueStart (Option ι)) sections s.sendQueue) ∧
      (∀ p q, (s.callers p).holds = true → (s.callers q).holds = true → p = q) ∧
      (∀ p, (s.callers p).holds = true → s.sender.holds = false) ∧
      (s.sender.onAir = true → s.receiver.hearing = false) ∧
      s.transmitted <+: s.enqueued ∧ List.Forall₂ (FrameHead table) s.wire s.transmitted ∧
      s.fault = false := by
  obtain ⟨⟨hexclusive, own, hand, cells, hordered, -⟩, hrun⟩ := sound_of_run h
  refine ⟨hrun, fun p q hp hq => hexclusive.eq_of_holds hq hp,
    fun p hp => hexclusive.sender_not_holds hp, hexclusive.not_hearing, ?_, wire_of_run h,
    hordered.safe⟩
  have hhistory : s.enqueued = s.transmitted ++ hand ++ cells.map Prod.snd := hordered.history
  rw [hhistory, List.append_assoc]
  exact List.prefix_append ..

/-- A packet is queued while the sender wakes up for no reason, and is taken while the receiver
hears another one, for which the sender waits; it is then on the air, as far as `write` takes it
before it fails. -/
def heldOff : List (ThreadAction Bool) := [
  .registerRecv true, .sender, .copy (some true) [1, 2] 0, .sender, .fill (some true) 1,
  .caller (some true), .caller (some true), .caller (some true), .wake true, .caller (some true),
  .receiver 1, .caller (some true), .receiver 0, .caller (some true), .sender, .sender, .sender,
  .sender, .sender, .receiver 7, .receiver 0, .receiver 0, .receiver 0, .sender,
  .send [some 4, none]]

theorem threads_run_sections_heldOff :
    ∃ s, Run (Step serialSymbols) (threadsStart Bool) heldOff s ∧ s.transmitted = [[1, 2]] ∧
      s.wire = [[0x55, 0x55, 0x55, 0xFF]] ∧
      s.sender.onAir = true ∧ s.receiver.hearing = false ∧
      List.Forall₂ (FrameHead serialSymbols) s.wire s.transmitted := by
  obtain ⟨s, hrun, hsent, hwire, hair⟩ := Run.exists_of_foldlM_some (f := step serialSymbols)
    (s := threadsStart Bool) (P := fun s => s.transmitted = [[1, 2]] ∧
      s.wire = [[0x55, 0x55, 0x55, 0xFF]] ∧ s.sender.onAir = true) heldOff (by decide +kernel)
  obtain ⟨-, -, -, hheld, -, hheads, -⟩ := threads_run_sections hrun
  exact ⟨s, hrun, hsent, hwire, hair, hheld hair, hheads⟩

/-- A call of `queue_send_get_size` is about to return a number. -/
def GetSizeReturns (s : QueueThreads ι) (p : Option ι) (size : Nat) : Prop :=
  s.MayCall p ∧ s.head = none ∧ size = 0 ∨ s.callers p = .counted size

/-- What `queue_send_get_size` returns is the number of packets that are queued and that the sender
has not taken yet. -/
theorem getSize_returns_queued (h : Run (Step table) (threadsStart ι) actions s)
    {size : Nat} (hreturns : s.GetSizeReturns p size) :
    s.enqueued.length = s.transmitted.length + s.sendQueue.inHand.length + size := by
  obtain ⟨⟨-, own, hand, cells, hordered, hcounts⟩, -⟩ := sound_of_run h
  have hhistory : s.enqueued = s.transmitted ++ hand ++ cells.map Prod.snd := hordered.history
  have hsize : size = cells.length := by
    rcases hreturns with ⟨-, hhead, rfl⟩ | hcounted
    · rw [hordered.linked.eq_none_iff.mp hhead]
      rfl
    · exact hcounts.counted p size hcounted
  rw [hhistory, hordered.inHand, hsize]
  simp [Nat.add_assoc]

/-- Two packets are queued, and the size is asked for while the sender takes the first. -/
def sizeAsked : List (ThreadAction Bool) := [
  .copy (some true) [1, 2] 0, .fill (some true) 1, .copy (some false) [3] 2, .fill (some false) 3,
  .caller (some true), .caller (some true), .caller (some true), .caller (some true),
  .caller (some true), .caller (some true), .caller (some false), .caller (some false),
  .caller (some false), .caller (some false), .caller (some false), .sender, .getSize (some true),
  .sender, .sender, .sender, .sender, .caller (some true), .caller (some true),
  .caller (some true), .caller (some true)]

theorem getSize_returns_queued_one :
    ∃ s, Run (Step serialSymbols) (threadsStart Bool) sizeAsked s ∧
      s.GetSizeReturns (some true) 1 ∧
      s.enqueued.length = s.transmitted.length + s.sendQueue.inHand.length + 1 := by
  obtain ⟨s, hrun, hcounted⟩ := Run.exists_of_foldlM_some (f := step serialSymbols)
    (s := threadsStart Bool) (P := fun s => s.callers (some true) = .counted 1) sizeAsked
    (by decide +kernel)
  exact ⟨s, hrun, Or.inr hcounted, getSize_returns_queued hrun (Or.inr hcounted)⟩

end QueueThreads

end OldRadio.First
