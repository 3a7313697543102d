import OldRadio.First.QueueSections

/-!
# Every statement is a step of the send queue or none

The statements of `queue_sender` and `queue_receiver`, and with those of the
calls all statements: each keeps what the mutexes are for, and leaves the send
queue as it is or is a step of it.
-/

namespace OldRadio.First

namespace QueueThreads

variable {ι : Type}

section Sound

variable [DecidableEq ι] {table : SymbolTable} {s t : QueueThreads ι} {p : Option ι} {c : Caller}
  {own : Addr → Owner (Option ι)} {hand : List (List UInt8)} {cells : List (Addr × List UInt8)}

/-! ### Steps of `queue_sender` -/

omit [DecidableEq ι] in
/-- The send queue behind a step of the sender outside of its section. -/
theorem sendQueue_of_sender {x : SenderAt} (h : Exclusive s) (hout : s.sender.holds = false)
    (hx : x.holds = false) (hwait : x ≠ .waiting) (hsender : t.sender = x)
    (hcallers : t.callers = s.callers) (hmutex : t.sendMutex = s.sendMutex)
    (hhead : t.head = s.head)
    (htail : t.tail = s.tail) (henqueued : t.enqueued = s.enqueued) :
    t.sendQueue = { s.sendQueue with
      mem := t.mem
      sender := x.sender
      signalled := t.signalled
      fault := t.fault
      transmitted := t.transmitted } := by
  subst hsender
  have hdue : t.tailDue = s.tailDue := by
    rw [tailDue, tailDue, hmutex, hcallers, htail]
    rcases hm : s.sendMutex with _ | p | -
    · rfl
    · rfl
    · rw [h.sender.mpr hm] at hout
      cases hout
  have hsignal : t.signalDue = false := by
    rw [signalDue]
    split
    · simp [hwait]
    · rfl
  rw [sendQueue, hdue, hsignal, hcallers, hhead, henqueued, Bool.or_false]
  rfl

omit [DecidableEq ι] in
/-- A signal is due only to a sender that waits. -/
theorem sendQueue_signalled (hwait : s.sender ≠ .waiting) :
    s.sendQueue.signalled = s.signalled := by
  have hdue : s.signalDue = false := by
    rw [signalDue]
    split
    · simp [hwait]
    · rfl
  change (s.signalled || s.signalDue) = s.signalled
  rw [hdue, Bool.or_false]

/-- The queue is empty, and the sender waits. -/
theorem leads_waiting (h : Exclusive s) (hordered : Ordered s.sendQueue own hand cells)
    (hcounts : Counts s cells) (hs : s.sender = .testing) (hhead : s.head = none) :
    Leads s { s with sender := .waiting, signalled := false, sendMutex := none } := by
  have hlocking : s.sendQueue.sender = .locking := congrArg SenderAt.sender hs
  have hdue : s.tailDue = s.tail := by
    rw [tailDue_of_sender h (by rw [hs]; rfl), hs]
    rfl
  obtain rfl : cells = [] := hordered.linked.eq_none_iff.mp hhead
  have heq : ({ s with sender := .waiting, signalled := false, sendMutex := none } :
      QueueThreads ι).sendQueue = s.sendQueue.pop := by
    rw [SendQueue.pop, show s.sendQueue.head = none from hhead]
    simp only [sendQueue, hdue, hhead]
    rfl
  refine ⟨⟨?_, own, [], [], heq ▸ hordered.dequeue_nil hlocking, hcounts.counting,
    hcounts.counted⟩, Or.inr ⟨.dequeue, ?_⟩⟩
  · exact h.of_sender hs rfl rfl rfl rfl (by simp) rfl (by simp) (Or.inl rfl) (by simp)
  · rw [heq, SendQueue.step, if_pos hlocking]

/-- The sender takes the first cell, and that the queue is empty if it was the only one follows in
the same section. -/
theorem leads_taking (h : Exclusive s) (hordered : Ordered s.sendQueue own hand cells)
    {xqueue : Addr} (hs : s.sender = .taking xqueue) :
    ∃ cell, cellAt s.mem xqueue = some cell ∧
      Leads s { s with head := cell.next, sender := .moved xqueue } := by
  have hholds : s.sender.holds = true := by rw [hs]; rfl
  have hlocking : s.sendQueue.sender = .locking := congrArg SenderAt.sender hs
  have hhead : s.sendQueue.head = some xqueue := h.taking xqueue hs
  have hdue : s.tailDue = s.tail := by
    rw [tailDue_of_sender h hholds, hs]
    rfl
  cases cells with
  | nil =>
    rw [show s.sendQueue.head = none from hordered.linked] at hhead
    cases hhead
  | cons e rest =>
    obtain ⟨hfirst, next, hqueued, -⟩ := hordered.linked
    obtain rfl : xqueue = e.1 := Option.some.inj (hhead.symm.trans hfirst)
    obtain ⟨b, hcell, -⟩ := hqueued.1.cellAt
    have hcell : cellAt s.mem e.1 = some { data := b, length := e.2.length, next } := hcell
    have ht : Exclusive { s with head := next, sender := .moved e.1 } :=
      h.of_sender hs rfl rfl rfl (h.sender.mp hholds) (fun _ => Or.inl rfl) rfl (by simp)
        (Or.inl rfl) (by simp)
    have heq : ({ s with head := next, sender := .moved e.1 } : QueueThreads ι).sendQueue =
        s.sendQueue.pop := by
      have htailDue := tailDue_of_sender ht rfl
      have hsignal := signalDue_of_sender ht rfl
      rw [SendQueue.pop, hhead]
      dsimp only
      rw [show cellAt s.sendQueue.mem e.1 = _ from hcell, sendQueue, htailDue, hsignal]
      simp only [sendQueue, hdue, signalDue_of_sender h hholds]
      rfl
    refine ⟨_, hcell, ⟨ht, _, [e.2], rest, heq ▸ (hordered.dequeue_cons hlocking).1, ?_⟩,
      Or.inr ⟨.dequeue, ?_⟩⟩
    · refine counts_of_none fun q hq => absurd hq ?_
      rw [Bool.not_eq_true]
      exact h.not_holds hholds q
    · rw [heq, SendQueue.step, if_pos hlocking]

/-- The sender sends the packet that it has taken. -/
theorem leads_sending (h : Exclusive s) (hordered : Ordered s.sendQueue own hand cells)
    (hcounts : Counts s cells) {xqueue : Addr} (hs : s.sender = .sending xqueue) :
    ∃ data, (cellAt s.mem xqueue).bind (bytesOf s.mem) = some data ∧ hand = [data] ∧
      ∀ wire, Leads s
        { s with transmitted := s.transmitted ++ [data], wire, sender := .done xqueue } := by
  have hsending : s.sendQueue.sender = .sending xqueue := congrArg SenderAt.sender hs
  have hout : s.sender.holds = false := by rw [hs]; rfl
  have hair : s.holdoffMutex = some .sender := h.onAir.mp (by rw [hs]; rfl)
  have hhas := hordered.sender
  rw [hsending] at hhas
  cases hhas with
  | @sending _ data next packet owned =>
    obtain ⟨cell, hcell, hbytes, -⟩ := packet.packetAt
    have hread : (cellAt s.sendQueue.mem xqueue).bind (bytesOf s.sendQueue.mem) = some data := by
      rw [hcell, Option.bind_some, hbytes]
    have heq : ∀ wire, ({ s with
        transmitted := s.transmitted ++ [data], wire, sender := .done xqueue } :
        QueueThreads ι).sendQueue = s.sendQueue.transmit xqueue := by
      intro wire
      rw [sendQueue_of_sender (x := .done xqueue)
        (t := { s with transmitted := s.transmitted ++ [data], wire, sender := .done xqueue })
        h hout rfl (by simp) rfl rfl rfl rfl rfl rfl, SendQueue.transmit, hread]
      dsimp only
      rw [← sendQueue_signalled (by simp [hs])]
      rfl
    refine ⟨data, hread, rfl, fun wire => ⟨⟨?_, own, [], cells,
      heq wire ▸ (hordered.send hsending).1, hcounts.counting, hcounts.counted⟩,
      Or.inr ⟨.send, ?_⟩⟩⟩
    · exact h.of_sender hs rfl rfl rfl rfl (by simp) hair (fun _ => Or.inl rfl) (Or.inr ⟨rfl, rfl⟩)
        (by simp)
    · rw [heq wire, SendQueue.step, hsending]

omit [DecidableEq ι] in
/-- The mutexes are held as before if the program stops, or its handler is another one. -/
theorem Exclusive.with_stopped (h : Exclusive s) (stopped : Option QueueStop) (recvHandler : Bool) :
    Exclusive { s with stopped, recvHandler } :=
  ⟨h.send, h.holdoff, h.heading, h.linking, h.taking, h.handler⟩

/-- Neither shows in the send queue. -/
theorem leads_stop (h : Exclusive s) (hordered : Ordered s.sendQueue own hand cells)
    (hcounts : Counts s cells) (stopped : Option QueueStop) (recvHandler : Bool) :
    Leads s { s with stopped, recvHandler } :=
  Leads.of_eq (h.with_stopped stopped recvHandler) hordered ⟨hcounts.counting, hcounts.counted⟩ rfl

/-- The call of `send_packet`. -/
theorem leads_send (h : Exclusive s) (hordered : Ordered s.sendQueue own hand cells)
    (hcounts : Counts s cells) {outcomes : List (Option Nat)}
    (hstep : s.sendStep table outcomes = some t) : Leads s t := by
  rw [sendStep] at hstep
  split at hstep
  case h_1 xqueue hs =>
    obtain ⟨data, hdata, -, hleads⟩ := leads_sending h hordered hcounts hs
    rw [hdata] at hstep
    dsimp only at hstep
    split at hstep
    case h_1 =>
      cases hstep
      exact leads_stop h hordered hcounts _ s.recvHandler
    case h_2 frame _ =>
      split_ifs at hstep
      · cases hstep
        exact leads_stop h hordered hcounts _ s.recvHandler
      · split at hstep
        case h_1 => cases hstep
        case h_2 =>
          cases hstep
          exact hleads _
  case h_2 => cases hstep

/-- The sender frees what it has sent. -/
theorem leads_release {x : SenderAt} (x' : SenderAt) (h : Exclusive s) (hcounts : Counts s cells)
    (hs : s.sender = x) (hx : x.holds = false ∧ x.onAir = false ∧ x ≠ .waiting)
    (hx' : x'.holds = false ∧ x'.onAir = false ∧ x' ≠ .waiting) {a : Addr}
    (hordered : Ordered (s.sendQueue.release a x'.sender) own hand cells)
    (hfreed : (s.sendQueue.release a x'.sender).sender = x'.sender) (hne : x.sender ≠ x'.sender)
    (hstep : ∃ action, s.sendQueue.step action = some (s.sendQueue.release a x'.sender)) :
    Leads s (s.release a x') := by
  subst hs
  have hqueue : s.sendQueue.mem a ≠ none := by
    intro hnone
    rw [SendQueue.release, if_pos hnone] at hfreed
    exact hne hfreed
  have hmem : s.mem a ≠ none := hqueue
  have heq : (s.release a x').sendQueue = s.sendQueue.release a x'.sender := by
    rw [release, if_neg hmem, SendQueue.release, if_neg hqueue, sendQueue_of_sender (x := x')
      (t := { s with mem := Function.update s.mem a none, sender := x' })
      h hx.1 hx'.1 hx'.2.2 rfl rfl rfl rfl rfl rfl]
    dsimp only
    rw [← sendQueue_signalled hx.2.2]
    rfl
  have ht : Exclusive (s.release a x') := by
    rw [release, if_neg hmem]
    refine h.of_sender rfl rfl rfl rfl ?_ ?_ ?_ ?_ (Or.inr ⟨rfl, rfl⟩) ?_
    · rw [hx.1, hx'.1]
      rfl
    · rw [hx'.1]
      simp
    · rw [hx.2.1, hx'.2.1]
      rfl
    · rw [hx'.2.1]
      simp
    · rintro xqueue rfl
      cases hx'.1
  refine ⟨⟨ht, own, hand, cells, heq ▸ hordered, ?_⟩, Or.inr ?_⟩
  · rw [release, if_neg hmem]
    exact ⟨hcounts.counting, hcounts.counted⟩
  · rw [heq]
    exact hstep

/-- The next statement of `queue_sender`. -/
theorem leads_sender (h : Exclusive s) (hordered : Ordered s.sendQueue own hand cells)
    (hcounts : Counts s cells) (hstep : s.senderStep = some t) : Leads s t := by
  rw [senderStep] at hstep
  split at hstep
  case h_1 hs =>
    rw [Option.ite_none_right_eq_some] at hstep
    obtain ⟨hfree, hstep⟩ := hstep
    cases hstep
    have ht : Exclusive { s with sender := .testing, sendMutex := some .sender } :=
      h.of_sender hs rfl rfl rfl rfl (fun _ => Or.inr hfree) rfl (by simp) (Or.inr ⟨rfl, rfl⟩)
        (by simp)
    refine Leads.of_eq ht hordered ⟨hcounts.counting, hcounts.counted⟩ ?_
    refine sendQueue_congr rfl rfl ?_ (fun _ => rfl) (by rw [hs]; rfl) ?_ rfl rfl rfl
    · rw [tailDue_of_none hfree]
      rfl
    · rw [signalDue_of_none hfree]
      rfl
  case h_2 hs =>
    have hholds : s.sender.holds = true := by rw [hs]; rfl
    split at hstep
    case h_1 hhead =>
      cases hstep
      exact leads_waiting h hordered hcounts hs hhead
    case h_2 xqueue hhead =>
      cases hstep
      have ht : Exclusive { s with sender := .taking xqueue } := by
        refine h.of_sender hs rfl rfl rfl (h.sender.mp hholds) (fun _ => Or.inl rfl) rfl (by simp)
          (Or.inl rfl) ?_
        rintro x hx
        obtain rfl := SenderAt.taking.inj hx
        exact hhead
      refine Leads.of_eq ht hordered ⟨hcounts.counting, hcounts.counted⟩ ?_
      refine sendQueue_congr rfl rfl ?_ (fun _ => rfl) (by rw [hs]; rfl) ?_ rfl rfl rfl
      · rw [tailDue_of_sender h hholds, tailDue_of_sender ht rfl, hs]
        rfl
      · rw [signalDue_of_sender h hholds, signalDue_of_sender ht rfl]
  case h_3 => cases hstep
  case h_4 xqueue hs =>
    obtain ⟨cell, hcell, hleads⟩ := leads_taking h hordered hs
    rw [hcell] at hstep
    cases hstep
    exact hleads
  case h_5 xqueue hs =>
    have hholds : s.sender.holds = true := by rw [hs]; rfl
    cases hstep
    have ht : Exclusive { s with
        tail := if s.head = none then none else s.tail
        sender := .unlocking xqueue } :=
      h.of_sender hs rfl rfl rfl (h.sender.mp hholds) (fun _ => Or.inl rfl) rfl (by simp)
        (Or.inl rfl) (by simp)
    refine Leads.of_eq ht hordered ⟨hcounts.counting, hcounts.counted⟩ ?_
    refine sendQueue_congr rfl rfl ?_ (fun _ => rfl) (by rw [hs]; rfl) ?_ rfl rfl rfl
    · rw [tailDue_of_sender h hholds, tailDue_of_sender ht rfl, hs]
      rfl
    · rw [signalDue_of_sender h hholds, signalDue_of_sender ht rfl]
  case h_6 xqueue hs =>
    have hholds : s.sender.holds = true := by rw [hs]; rfl
    cases hstep
    have ht : Exclusive { s with sender := .holding xqueue, sendMutex := none } :=
      h.of_sender hs rfl rfl rfl rfl (by simp) rfl (by simp) (Or.inl rfl) (by simp)
    refine Leads.of_eq ht hordered ⟨hcounts.counting, hcounts.counted⟩ ?_
    refine sendQueue_congr rfl rfl ?_ (fun _ => rfl) (by rw [hs]; rfl) ?_ rfl rfl rfl
    · rw [tailDue_of_sender h hholds, hs]
      rfl
    · rw [signalDue_of_sender h hholds]
      rfl
  case h_7 xqueue hs =>
    rw [Option.ite_none_right_eq_some] at hstep
    obtain ⟨hfree, hstep⟩ := hstep
    cases hstep
    have ht : Exclusive { s with sender := .sending xqueue, holdoffMutex := some .sender } :=
      h.of_sender hs rfl rfl rfl rfl (by simp) rfl (fun _ => Or.inr hfree) (Or.inr ⟨rfl, rfl⟩)
        (by simp)
    refine Leads.of_eq ht hordered ⟨hcounts.counting, hcounts.counted⟩ ?_
    rw [sendQueue_of_sender (x := .sending xqueue)
      (t := { s with sender := .sending xqueue, holdoffMutex := some .sender })
      h (by rw [hs]; rfl) rfl (by simp) rfl rfl rfl rfl rfl rfl]
    dsimp only
    rw [← sendQueue_signalled (by simp [hs]), show (SenderAt.sending xqueue).sender =
      s.sendQueue.sender from (congrArg SenderAt.sender hs).symm]
    rfl
  case h_8 => cases hstep
  case h_9 xqueue hs =>
    cases hstep
    have ht : Exclusive { s with sender := .sent xqueue, holdoffMutex := none } :=
      h.of_sender hs rfl rfl rfl rfl (by simp) rfl (by simp) (Or.inr ⟨rfl, rfl⟩)
        (by simp)
    refine Leads.of_eq ht hordered ⟨hcounts.counting, hcounts.counted⟩ ?_
    rw [sendQueue_of_sender (x := .sent xqueue)
      (t := { s with sender := .sent xqueue, holdoffMutex := none })
      h (by rw [hs]; rfl) rfl (by simp) rfl rfl rfl rfl rfl rfl]
    dsimp only
    rw [← sendQueue_signalled (by simp [hs]), show (SenderAt.sent xqueue).sender =
      s.sendQueue.sender from (congrArg SenderAt.sender hs).symm]
    rfl
  case h_10 xqueue hs =>
    have hsent : s.sendQueue.sender = .sent xqueue := congrArg SenderAt.sender hs
    obtain ⟨b, hb, hfree, hfreed⟩ := hordered.freeData hsent
    obtain ⟨cell, hcell, rfl⟩ := Option.map_eq_some_iff.mp hb
    have hcell : cellAt s.mem xqueue = some cell := hcell
    rw [hcell] at hstep
    cases hstep
    refine leads_release (.freed xqueue) h hcounts hs ⟨rfl, rfl, by simp⟩ ⟨rfl, rfl, by simp⟩ hfree
      hfreed (by simp [SenderAt.sender]) ⟨.freeData, ?_⟩
    rw [SendQueue.step, hsent]
    dsimp only
    rw [hb]
    rfl
  case h_11 xqueue hs =>
    have hfreed : s.sendQueue.sender = .freed xqueue := congrArg SenderAt.sender hs
    obtain ⟨hfree, hlocking⟩ := hordered.freeCell hfreed
    cases hstep
    refine leads_release .locking h hcounts hs ⟨rfl, rfl, by simp⟩ ⟨rfl, rfl, by simp⟩ hfree
      hlocking (by simp [SenderAt.sender]) ⟨.freeCell, ?_⟩
    rw [SendQueue.step, hfreed]
    rfl

/-- `pthread_cond_wait` returns. -/
theorem leads_wake (h : Exclusive s) (hordered : Ordered s.sendQueue own hand cells)
    (hcounts : Counts s cells) (hs : s.sender = .waiting) :
    Leads s { s with sender := .locking, signalled := false } := by
  have hwaiting : s.sendQueue.sender = .waiting := congrArg SenderAt.sender hs
  have ht : Exclusive { s with sender := .locking, signalled := false } :=
    h.of_sender hs rfl rfl rfl rfl (by simp) rfl (by simp) (Or.inr ⟨rfl, rfl⟩) (by simp)
  have heq := sendQueue_of_sender (x := .locking)
    (t := { s with sender := .locking, signalled := false })
    h (by rw [hs]; rfl) rfl (by simp) rfl rfl rfl rfl rfl rfl
  refine ⟨⟨ht, own, hand, cells, heq ▸ hordered.wake hwaiting, hcounts.counting, hcounts.counted⟩,
    Or.inr ⟨.wake, ?_⟩⟩
  rw [heq, SendQueue.step, if_pos hwaiting]
  rfl

/-! ### Steps of `queue_receiver` -/

/-- The next statement of `queue_receiver`. -/
theorem leads_receiver (h : Exclusive s) (hordered : Ordered s.sendQueue own hand cells)
    (hcounts : Counts s cells) {result : Nat} (hstep : s.receiverStep result = some t) :
    Leads s t := by
  have hidle : s.receiver ≠ .handling → s.callers none = .idle := fun hne => by
    by_contra hbusy
    exact hne (h.handler hbusy)
  have hheld : s.receiver.hearing = true → s.holdoffMutex = some .receiver := h.hearing.mp
  rw [receiverStep] at hstep
  split at hstep
  case h_1 hr =>
    cases hstep
    split_ifs
    · refine Leads.of_eq ?_ hordered ⟨hcounts.counting, hcounts.counted⟩ rfl
      exact h.of_receiver hr rfl rfl rfl rfl rfl (by simp) ⟨rfl, rfl⟩
        fun hbusy => absurd (hidle (by simp [hr])) hbusy
    · exact Leads.of_eq h hordered hcounts rfl
  case h_2 hr =>
    rw [Option.ite_none_right_eq_some] at hstep
    obtain ⟨hfree, hstep⟩ := hstep
    cases hstep
    refine Leads.of_eq ?_ hordered ⟨hcounts.counting, hcounts.counted⟩ rfl
    exact h.of_receiver hr rfl rfl rfl rfl rfl (fun _ => Or.inr hfree) ⟨rfl, rfl⟩
      fun hbusy => absurd (hidle (by simp [hr])) hbusy
  case h_3 hr =>
    by_cases hlong : receiverBufferLen < result
    · rw [if_pos hlong] at hstep
      cases hstep
      exact leads_stop h hordered hcounts _ s.recvHandler
    · rw [if_neg hlong] at hstep
      cases hstep
      refine Leads.of_eq ?_ hordered ⟨hcounts.counting, hcounts.counted⟩ rfl
      refine h.of_receiver hr rfl rfl rfl rfl ?_ (fun _ => Or.inl rfl) ⟨rfl, rfl⟩
        fun hbusy => absurd (hidle (by simp [hr])) hbusy
      rw [hheld (by rw [hr]; rfl)]
      by_cases hhandle : result ≠ 0 ∧ s.recvHandler = true
      · rw [if_pos hhandle]
        rfl
      · rw [if_neg hhandle]
        rfl
  case h_4 hr =>
    rw [Option.ite_none_right_eq_some] at hstep
    obtain ⟨hdone, hstep⟩ := hstep
    cases hstep
    refine Leads.of_eq ?_ hordered ⟨hcounts.counting, hcounts.counted⟩ rfl
    exact h.of_receiver hr rfl rfl rfl rfl (hheld (by rw [hr]; rfl)) (fun _ => Or.inl rfl)
      ⟨rfl, rfl⟩ fun hbusy => absurd hdone hbusy
  case h_5 hr =>
    cases hstep
    refine Leads.of_eq ?_ hordered ⟨hcounts.counting, hcounts.counted⟩ rfl
    refine h.of_receiver hr rfl rfl rfl rfl ?_ (fun _ => Or.inl rfl) ⟨rfl, rfl⟩
      fun hbusy => absurd (hidle (by simp [hr])) hbusy
    rw [hheld (by rw [hr]; rfl)]
    by_cases hmore : result ≠ 0
    · rw [if_pos hmore]
      rfl
    · rw [if_neg hmore]
      rfl
  case h_6 hr =>
    cases hstep
    refine Leads.of_eq ?_ hordered ⟨hcounts.counting, hcounts.counted⟩ rfl
    exact h.of_receiver hr rfl rfl rfl rfl rfl (by simp) ⟨rfl, rfl⟩
      fun hbusy => absurd (hidle (by simp [hr])) hbusy

/-- Every step keeps all in order, and is a step of the send queue or none. -/
theorem Sound.leads (h : Sound s) {action : ThreadAction ι} (hstep : s.Step table action t) :
    Leads s t := by
  obtain ⟨hexclusive, own, hand, cells, hordered, hcounts⟩ := h
  replace hstep := (step_iff.mp hstep).2
  cases action with
  | copy p data qdata =>
    rw [act, Option.ite_none_right_eq_some] at hstep
    obtain ⟨⟨hcall, hnew⟩, hstep⟩ := hstep
    cases hstep
    exact leads_copy hexclusive hordered hcounts hcall hnew
  | fill p nqueue =>
    rw [act] at hstep
    split at hstep
    case h_1 data qdata hp =>
      rw [Option.ite_none_right_eq_some] at hstep
      obtain ⟨hnew, hstep⟩ := hstep
      cases hstep
      exact leads_fill hexclusive hordered hcounts hp hnew
    case h_2 => cases hstep
  | getSize p =>
    rw [act, Option.ite_none_right_eq_some] at hstep
    obtain ⟨hcall, hstep⟩ := hstep
    cases hstep
    split_ifs
    · exact Leads.of_eq hexclusive hordered hcounts rfl
    · exact leads_getSize hexclusive hordered hcounts hcall
  | caller p => exact leads_caller hexclusive hordered hcounts hstep
  | sender => exact leads_sender hexclusive hordered hcounts hstep
  | send outcomes => exact leads_send hexclusive hordered hcounts hstep
  | wake spurious =>
    rw [act, Option.ite_none_right_eq_some] at hstep
    obtain ⟨⟨hs, -⟩, hstep⟩ := hstep
    cases hstep
    exact leads_wake hexclusive hordered hcounts hs
  | receiver result => exact leads_receiver hexclusive hordered hcounts hstep
  | registerRecv handler =>
    cases hstep
    exact leads_stop hexclusive hordered hcounts s.stopped handler

end Sound

end QueueThreads

end OldRadio.First
