import OldRadio.First.QueueThreads

/-!
# Sections of the calls

Only who holds `queue_send_mutex` is in a section, so what is due there and not
yet done shows to nobody else. A statement of `queue_send_packet` or
`queue_send_get_size` leaves the send queue as it is or is a step of it, and a
thread that counts has counted the cells in front of the one that it looks at.
-/

namespace OldRadio.First

open Library

namespace QueueThreads

variable {ι : Type}

/-! ## What a step does to the mutexes -/

section Steps

variable {s t : QueueThreads ι} {p : Option ι} {c : Caller} {x : SenderAt}

variable [DecidableEq ι]

/-- A thread goes on in its call: it locks the mutex if it is free, keeps it, or unlocks it, and
changes the ends of the queue only if it holds it. -/
theorem Exclusive.of_caller (h : Exclusive s) (hcallers : t.callers = Function.update s.callers p c)
    (hsender : t.sender = s.sender) (hreceiver : t.receiver = s.receiver)
    (hholdoff : t.holdoffMutex = s.holdoffMutex)
    (hmutex : t.sendMutex = if c.holds = true then some (.caller p)
      else if (s.callers p).holds = true then none else s.sendMutex)
    (hfree : c.holds = true → (s.callers p).holds = true ∨ s.sendMutex = none)
    (hends : (s.callers p).holds = true ∨ t.head = s.head ∧ t.tail = s.tail)
    (hheading : ∀ data nqueue, c = .heading data nqueue → t.tail = none)
    (hlinking : ∀ data nqueue, c = .linking data nqueue → t.tail ≠ none)
    (hhandler : p = none → c ≠ .idle → s.receiver = .handling) : Exclusive t := by
  have hself : t.callers p = c := by rw [hcallers, Function.update_self]
  have hother : ∀ q, q ≠ p → t.callers q = s.callers q := fun q hne => by
    rw [hcallers, Function.update_of_ne hne]
  have hkept : ∀ q, q ≠ p → (s.callers q).holds = true → t.head = s.head ∧ t.tail = s.tail :=
    fun q hne hq => hends.resolve_left fun hp => hne (h.eq_of_holds hp hq)
  have hsend : Guards t.sendMutex t.inSection := by
    have hstep : Guards _ t.inSection := h.send.step (p := SendHolder.caller p) (fun q hne => ?_)
      fun hin => hfree (by rwa [inSection, hself] at hin)
    · rw [inSection, hself] at hstep
      exact hmutex ▸ hstep
    · cases q with
      | caller q => exact congrArg Caller.holds (hother q fun heq => hne (congrArg _ heq))
      | sender => exact congrArg SenderAt.holds hsender
  have hair : Guards t.holdoffMutex t.inHoldoff := by
    rw [hholdoff]
    refine h.holdoff.keep fun q => ?_
    cases q with
    | sender => exact congrArg SenderAt.onAir hsender
    | receiver => exact congrArg ReceiverAt.hearing hreceiver
  constructor
  case send => exact hsend
  case holdoff => exact hair
  case heading =>
    intro q data nqueue hq
    rcases eq_or_ne q p with rfl | hne
    · exact hheading data nqueue (hself.symm.trans hq)
    · rw [hother q hne] at hq
      rw [(hkept q hne (by rw [hq]; rfl)).2]
      exact h.heading q data nqueue hq
  case linking =>
    intro q data nqueue hq
    rcases eq_or_ne q p with rfl | hne
    · exact hlinking data nqueue (hself.symm.trans hq)
    · rw [hother q hne] at hq
      rw [(hkept q hne (by rw [hq]; rfl)).2]
      exact h.linking q data nqueue hq
  case taking =>
    intro xqueue hx
    rw [hsender] at hx
    have hsend : s.sender.holds = true := by rw [hx]; rfl
    have hhead : t.head = s.head := (hends.resolve_left fun hp => by
      rw [h.sender_not_holds hp] at hsend
      cases hsend).1
    rw [hhead]
    exact h.taking xqueue hx
  case handler =>
    intro hnone
    rw [hreceiver]
    rcases eq_or_ne none p with rfl | hne
    · rw [hself] at hnone
      exact hhandler rfl hnone
    · rw [hother none hne] at hnone
      exact h.handler hnone

omit [DecidableEq ι] in
/-- The sender goes on in the same way. -/
theorem Exclusive.of_sender {x' : SenderAt} (h : Exclusive s) (hs : s.sender = x)
    (hcallers : t.callers = s.callers) (hsender : t.sender = x')
    (hreceiver : t.receiver = s.receiver)
    (hmutex : t.sendMutex = if x'.holds = true then some .sender
      else if x.holds = true then none else s.sendMutex)
    (hfree : x'.holds = true → x.holds = true ∨ s.sendMutex = none)
    (hholdoff : t.holdoffMutex = if x'.onAir = true then some .sender
      else if x.onAir = true then none else s.holdoffMutex)
    (hclear : x'.onAir = true → x.onAir = true ∨ s.holdoffMutex = none)
    (hends : x.holds = true ∨ t.head = s.head ∧ t.tail = s.tail)
    (htaking : ∀ xqueue, x' = .taking xqueue → t.head = some xqueue) : Exclusive t := by
  subst hs
  have hkept : ∀ q, (s.callers q).holds = true → t.head = s.head ∧ t.tail = s.tail :=
    fun q hq => hends.resolve_left fun hs => by
      rw [h.not_holds hs q] at hq
      cases hq
  constructor
  case send =>
    have hstep : Guards _ t.inSection := h.send.step (p := SendHolder.sender) (fun q hne => ?_)
      fun hin => hfree (by rwa [inSection, hsender] at hin)
    · rw [inSection, hsender] at hstep
      exact hmutex ▸ hstep
    · cases q with
      | caller q => exact congrArg (fun callers => (callers q).holds) hcallers
      | sender => exact absurd rfl hne
  case holdoff =>
    have hstep : Guards _ t.inHoldoff := h.holdoff.step (p := HoldoffHolder.sender)
      (fun q hne => ?_) fun hin => hclear (by rwa [inHoldoff, hsender] at hin)
    · rw [inHoldoff, hsender] at hstep
      exact hholdoff ▸ hstep
    · cases q with
      | sender => exact absurd rfl hne
      | receiver => exact congrArg ReceiverAt.hearing hreceiver
  case heading =>
    intro q data nqueue hq
    rw [hcallers] at hq
    rw [(hkept q (by rw [hq]; rfl)).2]
    exact h.heading q data nqueue hq
  case linking =>
    intro q data nqueue hq
    rw [hcallers] at hq
    rw [(hkept q (by rw [hq]; rfl)).2]
    exact h.linking q data nqueue hq
  case taking => exact fun xqueue hx => htaking xqueue (hsender.symm.trans hx)
  case handler =>
    rw [hcallers, hreceiver]
    exact h.handler

omit [DecidableEq ι] in
/-- So does the receiver, with its own mutex. -/
theorem Exclusive.of_receiver {r r' : ReceiverAt} (h : Exclusive s) (hr : s.receiver = r)
    (hcallers : t.callers = s.callers) (hsender : t.sender = s.sender) (hreceiver : t.receiver = r')
    (hmutex : t.sendMutex = s.sendMutex)
    (hholdoff : t.holdoffMutex = if r'.hearing = true then some .receiver
      else if r.hearing = true then none else s.holdoffMutex)
    (hclear : r'.hearing = true → r.hearing = true ∨ s.holdoffMutex = none)
    (hends : t.head = s.head ∧ t.tail = s.tail)
    (hhandler : s.callers none ≠ .idle → r' = .handling) : Exclusive t := by
  subst hr
  constructor
  case send =>
    rw [hmutex]
    refine h.send.keep fun q => ?_
    cases q with
    | caller q => exact congrArg (fun callers => (callers q).holds) hcallers
    | sender => exact congrArg SenderAt.holds hsender
  case holdoff =>
    have hstep : Guards _ t.inHoldoff := h.holdoff.step (p := HoldoffHolder.receiver)
      (fun q hne => ?_) fun hin => hclear (by rwa [inHoldoff, hreceiver] at hin)
    · rw [inHoldoff, hreceiver] at hstep
      exact hholdoff ▸ hstep
    · cases q with
      | sender => exact congrArg SenderAt.onAir hsender
      | receiver => exact absurd rfl hne
  case heading =>
    rw [hcallers, hends.2]
    exact h.heading
  case linking =>
    rw [hcallers, hends.2]
    exact h.linking
  case taking =>
    rw [hsender, hends.1]
    exact h.taking
  case handler =>
    rw [hcallers, hreceiver]
    exact hhandler

end Steps

/-! ## What a step does to the send queue -/

section Queue

variable {s t : QueueThreads ι} {p : Option ι} {c : Caller}

theorem tailDue_of_holds (h : Exclusive s) (hp : (s.callers p).holds = true) :
    s.tailDue = (s.callers p).tail s.tail := by
  rw [tailDue, (h.callers p).mp hp]

theorem tailDue_of_sender (h : Exclusive s) (hs : s.sender.holds = true) :
    s.tailDue = s.sender.tail s.head s.tail := by
  rw [tailDue, h.sender.mp hs]

theorem tailDue_of_none (hnone : s.sendMutex = none) : s.tailDue = s.tail := by
  rw [tailDue, hnone]

theorem signalDue_of_holds (h : Exclusive s) (hp : (s.callers p).holds = true) :
    s.signalDue = ((s.callers p).toSignal && s.sender == .waiting) := by
  rw [signalDue, (h.callers p).mp hp]

theorem signalDue_of_sender (h : Exclusive s) (hs : s.sender.holds = true) :
    s.signalDue = false := by
  rw [signalDue, h.sender.mp hs]

theorem signalDue_of_none (hnone : s.sendMutex = none) : s.signalDue = false := by
  rw [signalDue, hnone]

/-- Two states with the same send queue. -/
theorem sendQueue_congr (hmem : t.mem = s.mem) (hhead : t.head = s.head)
    (htail : t.tailDue = s.tailDue)
    (hcallers : ∀ q, (t.callers q).producer = (s.callers q).producer)
    (hsender : t.sender.sender = s.sender.sender)
    (hsignalled : (t.signalled || t.signalDue) = (s.signalled || s.signalDue))
    (hfault : t.fault = s.fault) (henqueued : t.enqueued = s.enqueued)
    (htransmitted : t.transmitted = s.transmitted) : t.sendQueue = s.sendQueue := by
  unfold sendQueue
  rw [hmem, hhead, htail, funext hcallers, hsender, hsignalled, hfault, henqueued, htransmitted]

variable [DecidableEq ι]

/-- A thread that is not in its section changes nothing that is due there. -/
theorem dues_of_outside (h : Exclusive s) (hp : (s.callers p).holds = false)
    (hcallers : t.callers = Function.update s.callers p c) (hmutex : t.sendMutex = s.sendMutex)
    (hsender : t.sender = s.sender) (hhead : t.head = s.head) (htail : t.tail = s.tail) :
    t.tailDue = s.tailDue ∧ t.signalDue = s.signalDue := by
  rw [tailDue, tailDue, signalDue, signalDue, hmutex, hsender, hhead, htail]
  rcases hm : s.sendMutex with _ | q | -
  · exact ⟨rfl, rfl⟩
  · have hne : q ≠ p := by
      rintro rfl
      rw [(h.callers q).mpr hm] at hp
      cases hp
    dsimp only
    rw [hcallers, Function.update_of_ne hne]
    exact ⟨rfl, rfl⟩
  · exact ⟨rfl, rfl⟩

/-- A thread that is further in its section, but not past the statement that counts, is where it
was. -/
theorem producer_update (hc : c.producer = (s.callers p).producer) (q : Option ι) :
    (Function.update s.callers p c q).producer = (s.callers q).producer := by
  rcases eq_or_ne q p with rfl | hne
  · rw [Function.update_self, hc]
  · rw [Function.update_of_ne hne]

/-- The threads of the send queue when one is further in its call. -/
theorem producers_update :
    (fun q => (Function.update s.callers p c q).producer) =
      Function.update (fun q => (s.callers q).producer) p c.producer := by
  funext q
  rcases eq_or_ne q p with rfl | hne
  · rw [Function.update_self, Function.update_self]
  · rw [Function.update_of_ne hne, Function.update_of_ne hne]

end Queue

/-! ## What every step keeps -/

/-- A thread that counts has counted the cells in front of the one that it looks at. -/
structure Counts (s : QueueThreads ι) (cells : List (Addr × List UInt8)) : Prop where
  counting : ∀ p x count, s.callers p = .counting x count →
    count ≤ cells.length ∧ x = ((cells.drop count).map Prod.fst).head?
  counted : ∀ p count, s.callers p = .counted count → count = cells.length

/-- The mutexes do their work, the send queue is in order, and who counts counts its cells. -/
def Sound (s : QueueThreads ι) : Prop :=
  Exclusive s ∧ ∃ own hand cells, Ordered s.sendQueue own hand cells ∧ Counts s cells

theorem sound_threadsStart : Sound (threadsStart ι) :=
  ⟨exclusive_threadsStart, fun _ => .queue, [], [], ordered_queueStart _, by simp [threadsStart],
    by simp [threadsStart]⟩

section Sound

variable [DecidableEq ι] {s t : QueueThreads ι} {p : Option ι} {c : Caller}
  {own : Addr → Owner (Option ι)} {hand : List (List UInt8)} {cells : List (Addr × List UInt8)}

theorem Counts.of_caller (h : Counts s cells) (hcallers : t.callers = Function.update s.callers p c)
    (hcounting : ∀ x count, c = .counting x count →
      count ≤ cells.length ∧ x = ((cells.drop count).map Prod.fst).head?)
    (hcounted : ∀ count, c = .counted count → count = cells.length) : Counts t cells := by
  constructor
  · intro q x count hq
    rw [hcallers] at hq
    rcases eq_or_ne q p with rfl | hne
    · rw [Function.update_self] at hq
      exact hcounting x count hq
    · rw [Function.update_of_ne hne] at hq
      exact h.counting q x count hq
  · intro q count hq
    rw [hcallers] at hq
    rcases eq_or_ne q p with rfl | hne
    · rw [Function.update_self] at hq
      exact hcounted count hq
    · rw [Function.update_of_ne hne] at hq
      exact h.counted q count hq

omit [DecidableEq ι] in
/-- Nobody counts while another thread is in its section. -/
theorem counts_of_none (hnone : ∀ q, (t.callers q).holds = true →
    ∀ x count, t.callers q ≠ .counting x count ∧ t.callers q ≠ .counted count) :
    Counts t cells := by
  constructor
  · exact fun q x count hq => absurd hq (hnone q (by rw [hq]; rfl) x count).1
  · exact fun q count hq => absurd hq (hnone q (by rw [hq]; rfl) none count).2

/-- What a step leads to: all is sound, and the send queue is the same or a step further. -/
def Leads (s t : QueueThreads ι) : Prop :=
  Sound t ∧ (t.sendQueue = s.sendQueue ∨ ∃ action, s.sendQueue.step action = some t.sendQueue)

theorem Leads.of_eq (ht : Exclusive t) (hordered : Ordered s.sendQueue own hand cells)
    (hcounts : Counts t cells) (heq : t.sendQueue = s.sendQueue) : Leads s t :=
  ⟨⟨ht, own, hand, cells, heq ▸ hordered, hcounts⟩, Or.inl heq⟩

/-! ### Steps outside the sections -/

/-- The send queue behind a step outside of the sections. -/
theorem sendQueue_outside (h : Exclusive s) (hout : (s.callers p).holds = false) (c : Caller)
    (mem : Memory) :
    ({ s.setCaller p c with mem } : QueueThreads ι).sendQueue =
      { s.sendQueue with
        mem
        producers := Function.update s.sendQueue.producers p c.producer } := by
  obtain ⟨htail, hsignal⟩ := dues_of_outside (t := { s.setCaller p c with mem }) h hout rfl rfl rfl
    rfl rfl
  rw [sendQueue, htail, hsignal]
  exact congrArg (fun producers => ({ s.sendQueue with mem, producers } : SendQueue (Option ι)))
    producers_update

theorem Exclusive.outside (h : Exclusive s) (hout : (s.callers p).holds = false)
    (hc : c.holds = false) (mem : Memory) (hhandler : p = none → s.receiver = .handling) :
    Exclusive { s.setCaller p c with mem } := by
  refine h.of_caller rfl rfl rfl rfl ?_ (fun hholds => ?_) (Or.inr ⟨rfl, rfl⟩) (fun _ _ heq => ?_)
    (fun _ _ heq => ?_) fun hp _ => hhandler hp
  · rw [hout, hc]
    rfl
  · rw [hc] at hholds
    cases hholds
  · rw [heq] at hc
    cases hc
  · rw [heq] at hc
    cases hc

theorem leads_copy (h : Exclusive s) (hordered : Ordered s.sendQueue own hand cells)
    (hcounts : Counts s cells) (hcall : s.MayCall p) {data : List UInt8} {qdata : Addr}
    (hnew : s.mem qdata = none) :
    Leads s { s.setCaller p (.copied data qdata) with
      mem := Function.update s.mem qdata (some (.bytes data)) } := by
  have hidle : s.sendQueue.producers p = .idle := congrArg Caller.producer hcall.1
  have hout : (s.callers p).holds = false := by rw [hcall.1]; rfl
  have heq := sendQueue_outside h hout (.copied data qdata)
    (Function.update s.mem qdata (some (.bytes data)))
  refine ⟨⟨h.outside hout rfl _ hcall.2, Function.update own qdata (.producer p), hand, cells, ?_,
    hcounts.of_caller rfl (by simp) (by simp)⟩, Or.inr ⟨.copy p data qdata, ?_⟩⟩
  · rw [heq]
    exact hordered.copy hnew
  · rw [heq, SendQueue.step, if_pos ⟨hidle, hnew⟩]
    rfl

theorem leads_fill (h : Exclusive s) (hordered : Ordered s.sendQueue own hand cells)
    (hcounts : Counts s cells) {data : List UInt8} {qdata nqueue : Addr}
    (hp : s.callers p = .copied data qdata) (hnew : s.mem nqueue = none) :
    Leads s { s.setCaller p (.filled data nqueue) with
      mem := Function.update s.mem nqueue
        (some (.queue { data := qdata, length := data.length, next := none })) } := by
  have hcopied : s.sendQueue.producers p = .copied data qdata := congrArg Caller.producer hp
  have hout : (s.callers p).holds = false := by rw [hp]; rfl
  have heq := sendQueue_outside h hout (.filled data nqueue)
    (Function.update s.mem nqueue
      (some (.queue { data := qdata, length := data.length, next := none })))
  obtain ⟨own', hordered'⟩ := hordered.fill hcopied hnew
  refine ⟨⟨h.outside hout rfl _ ?_, own', hand, cells, ?_,
      hcounts.of_caller rfl (by simp) (by simp)⟩,
    Or.inr ⟨.fill p nqueue, ?_⟩⟩
  · rintro rfl
    exact h.handler (by simp [hp])
  · rw [heq]
    exact hordered'
  · rw [heq, SendQueue.step, hcopied]
    exact if_pos hnew

theorem leads_getSize (h : Exclusive s) (hordered : Ordered s.sendQueue own hand cells)
    (hcounts : Counts s cells) (hcall : s.MayCall p) : Leads s (s.setCaller p .measuring) := by
  have hout : (s.callers p).holds = false := by rw [hcall.1]; rfl
  refine Leads.of_eq (h.outside hout rfl s.mem hcall.2) hordered
    (hcounts.of_caller rfl (by simp) (by simp)) ?_
  obtain ⟨htail, hsignal⟩ := dues_of_outside (t := s.setCaller p .measuring) h hout rfl rfl rfl rfl
    rfl
  refine sendQueue_congr rfl rfl htail (producer_update ?_) rfl ?_ rfl rfl rfl
  · rw [hcall.1]
    rfl
  · rw [hsignal]
    rfl

/-! ### Steps of the sections of `queue_send_packet` and `queue_send_get_size` -/

omit [DecidableEq ι] in
/-- A thread that holds the mutex is in a call. -/
theorem Exclusive.handling (h : Exclusive s) (hp : (s.callers p).holds = true) (hnone : p = none) :
    s.receiver = .handling := by
  subst hnone
  exact h.handler fun hidle => by
    rw [hidle] at hp
    cases hp

/-- A thread that locks the mutex. -/
theorem leads_lock (h : Exclusive s) (hordered : Ordered s.sendQueue own hand cells)
    (hcounts : Counts s cells) (hout : (s.callers p).holds = false) (hfree : s.sendMutex = none)
    (hc : c = .reading ∨ ∃ data nqueue, c = .testing data nqueue)
    (hproducer : c.producer = (s.callers p).producer) (hidle : s.callers p ≠ .idle) :
    Leads s { s.setCaller p c with sendMutex := some (.caller p) } := by
  have ht : Exclusive { s.setCaller p c with sendMutex := some (.caller p) } := by
    refine h.of_caller rfl rfl rfl rfl ?_ (fun _ => Or.inr hfree) (Or.inr ⟨rfl, rfl⟩) ?_ ?_ ?_
    · rcases hc with rfl | ⟨data, nqueue, rfl⟩
      · rfl
      · rfl
    · rcases hc with rfl | ⟨data, nqueue, rfl⟩
      · simp
      · simp
    · rcases hc with rfl | ⟨data, nqueue, rfl⟩
      · simp
      · simp
    · rintro rfl -
      exact h.handler hidle
  have hself : (s.setCaller p c).callers p = c := Function.update_self ..
  refine Leads.of_eq ht hordered ?_ ?_
  · rcases hc with rfl | ⟨data, nqueue, rfl⟩
    · exact hcounts.of_caller rfl (by simp) (by simp)
    · exact hcounts.of_caller rfl (by simp) (by simp)
  · refine sendQueue_congr rfl rfl ?_ (producer_update hproducer) rfl ?_ rfl rfl rfl
    · rw [tailDue_of_none hfree]
      change ((s.setCaller p c).callers p).tail s.tail = s.tail
      rw [hself]
      rcases hc with rfl | ⟨data, nqueue, rfl⟩
      · rfl
      · rfl
    · rw [signalDue_of_none hfree]
      change (s.signalled || (((s.setCaller p c).callers p).toSignal && s.sender == .waiting)) = _
      rw [hself]
      rcases hc with rfl | ⟨data, nqueue, rfl⟩
      · rfl
      · rfl

/-- A step of the section that shows only to those who hold the mutex. -/
theorem leads_holder (c' : Caller) {tail : Option Addr} {signalled : Bool} (h : Exclusive s)
    (hordered : Ordered s.sendQueue own hand cells) (hp : s.callers p = c) (hc : c.holds = true)
    (htail : c'.tail tail = c.tail s.tail)
    (hsignalled : (signalled || (c'.toSignal && s.sender == .waiting)) =
      (s.signalled || (c.toSignal && s.sender == .waiting)))
    (hproducer : c'.producer = c.producer)
    (hheading : ∀ data nqueue, c' = .heading data nqueue → tail = none)
    (hlinking : ∀ data nqueue, c' = .linking data nqueue → tail ≠ none)
    (hcounts : Counts (s.setCaller p c') cells) :
    Leads s { s.setCaller p c' with
      tail
      signalled
      sendMutex := if c'.holds = true then s.sendMutex else none } := by
  subst hp
  have ht : Exclusive { s.setCaller p c' with
      tail
      signalled
      sendMutex := if c'.holds = true then s.sendMutex else none } := by
    refine h.of_caller rfl rfl rfl rfl ?_ (fun _ => Or.inl hc) (Or.inl hc) hheading hlinking
      fun hnone _ => h.handling hc hnone
    rw [if_pos hc, (h.callers p).mp hc]
  have hself : (s.setCaller p c').callers p = c' := Function.update_self ..
  refine Leads.of_eq ht hordered ⟨hcounts.counting, hcounts.counted⟩
    (sendQueue_congr rfl rfl ?_ (producer_update hproducer) rfl ?_ rfl rfl rfl)
  · rw [tailDue_of_holds h hc, ← htail]
    by_cases hc' : c'.holds = true
    · rw [tailDue_of_holds ht (hself ▸ hc')]
      exact congrArg (Caller.tail tail) hself
    · rw [tailDue_of_none (if_neg hc'), Caller.tail_of_not_holds (Bool.eq_false_iff.mpr hc')]
  · rw [signalDue_of_holds h hc, ← hsignalled]
    by_cases hc' : c'.holds = true
    · rw [signalDue_of_holds ht (hself ▸ hc')]
      exact congrArg (fun d => signalled || (Caller.toSignal d && s.sender == .waiting)) hself
    · rw [signalDue_of_none (if_neg hc'), Caller.toSignal_of_not_holds (Bool.eq_false_iff.mpr hc'),
        Bool.false_and]

/-- Nobody else counts while a thread is in its section. -/
theorem Exclusive.counts_of_caller (h : Exclusive s) (hp : (s.callers p).holds = true)
    (hcallers : t.callers = Function.update s.callers p c)
    (hcounting : ∀ x count, c ≠ .counting x count) (hcounted : ∀ count, c ≠ .counted count) :
    Counts t cells := by
  refine counts_of_none fun q hq x count => ?_
  rw [hcallers] at hq ⊢
  rcases eq_or_ne q p with rfl | hne
  · rw [Function.update_self]
    exact ⟨hcounting x count, hcounted count⟩
  · rw [Function.update_of_ne hne] at hq
    exact absurd (h.eq_of_holds hp hq) hne

/-- So it is if the thread does not count either. -/
theorem leads_holder_of_ne (c' : Caller) {tail : Option Addr} {signalled : Bool} (h : Exclusive s)
    (hordered : Ordered s.sendQueue own hand cells) (hp : s.callers p = c) (hc : c.holds = true)
    (htail : c'.tail tail = c.tail s.tail)
    (hsignalled : (signalled || (c'.toSignal && s.sender == .waiting)) =
      (s.signalled || (c.toSignal && s.sender == .waiting)))
    (hproducer : c'.producer = c.producer)
    (hheading : ∀ data nqueue, c' = .heading data nqueue → tail = none)
    (hlinking : ∀ data nqueue, c' = .linking data nqueue → tail ≠ none)
    (hcounting : ∀ x count, c' ≠ .counting x count) (hcounted : ∀ count, c' ≠ .counted count) :
    Leads s { s.setCaller p c' with
      tail
      signalled
      sendMutex := if c'.holds = true then s.sendMutex else none } :=
  leads_holder c' h hordered hp hc htail hsignalled hproducer hheading hlinking
    (h.counts_of_caller (hp ▸ hc) rfl hcounting hcounted)

/-- The first cell becomes the head of the queue, and that it becomes the tail and that the sender
is signalled follows in the same section. -/
theorem leads_heading (h : Exclusive s) (hordered : Ordered s.sendQueue own hand cells)
    {data : List UInt8} {nqueue : Addr} (hp : s.callers p = .heading data nqueue) :
    Leads s { s.setCaller p (.tailing nqueue) with
      head := some nqueue
      enqueued := s.enqueued ++ [data] } := by
  have hholds : (s.callers p).holds = true := by rw [hp]; rfl
  have hfilled : s.sendQueue.producers p = .filled data nqueue := congrArg Caller.producer hp
  have hmutex := (h.callers p).mp hholds
  have ht : Exclusive { s.setCaller p (.tailing nqueue) with
      head := some nqueue
      enqueued := s.enqueued ++ [data] } :=
    h.of_caller rfl rfl rfl rfl hmutex (fun _ => Or.inl hholds) (Or.inl hholds) (by simp) (by simp)
      fun hnone _ => h.handling hholds hnone
  have htail : s.sendQueue.tail = none := by
    change s.tailDue = none
    rw [tailDue_of_holds h hholds, hp]
    exact h.heading p data nqueue hp
  have hself : (s.setCaller p (.tailing nqueue)).callers p = .tailing nqueue :=
    Function.update_self ..
  have heq : ({ s.setCaller p (.tailing nqueue) with
      head := some nqueue
      enqueued := s.enqueued ++ [data] } : QueueThreads ι).sendQueue =
      { s.sendQueue.append nqueue with
        producers := Function.update s.sendQueue.producers p .idle
        enqueued := s.sendQueue.enqueued ++ [data] } := by
    have hdue := tailDue_of_holds ht (by rw [hself]; rfl)
    have hsignal := signalDue_of_holds ht (by rw [hself]; rfl)
    rw [hself] at hdue hsignal
    rw [SendQueue.append, htail, sendQueue, hdue, hsignal]
    have hbefore := signalDue_of_holds h hholds
    rw [hp] at hbefore
    simp only [sendQueue, hbefore, SenderAt.sender_beq_waiting, Caller.tail, Caller.toSignal,
      Bool.true_and, Bool.false_and, Bool.or_false]
    exact congrArg (fun producers => ({ s.sendQueue with
      head := some nqueue
      tail := some nqueue
      producers
      signalled := s.signalled || s.sender == .waiting
      enqueued := s.enqueued ++ [data] } : SendQueue (Option ι))) producers_update
  refine ⟨⟨ht, _, hand, _, heq ▸ hordered.enqueue hfilled,
    h.counts_of_caller hholds rfl (by simp) (by simp)⟩, Or.inr ⟨.enqueue p, ?_⟩⟩
  rw [heq, SendQueue.step, hfilled]

omit [DecidableEq ι] in
/-- The tail of the queue is a cell. -/
theorem exists_cellAt_tail (hordered : Ordered s.sendQueue own hand cells) {tail : Addr}
    (htail : s.sendQueue.tail = some tail) : ∃ cell, cellAt s.mem tail = some cell := by
  obtain ⟨front, last, rfl⟩ := hordered.exists_last htail
  obtain ⟨b, hcell, -⟩ := hordered.linked.last.1.cellAt
  exact ⟨_, hcell⟩

/-- A cell that is linked behind the last one is in the queue, and that it becomes the tail follows
in the same section. -/
theorem leads_linking (h : Exclusive s) (hordered : Ordered s.sendQueue own hand cells)
    {data : List UInt8} {nqueue tail : Addr} {cell : QueueT}
    (hp : s.callers p = .linking data nqueue) (htail : s.tail = some tail)
    (hcell : cellAt s.mem tail = some cell) :
    Leads s { s.setCaller p (.moving nqueue) with
      mem := Function.update s.mem tail (some (.queue { cell with next := some nqueue }))
      enqueued := s.enqueued ++ [data] } := by
  have hholds : (s.callers p).holds = true := by rw [hp]; rfl
  have hfilled : s.sendQueue.producers p = .filled data nqueue := congrArg Caller.producer hp
  have hmutex := (h.callers p).mp hholds
  have ht : Exclusive { s.setCaller p (.moving nqueue) with
      mem := Function.update s.mem tail (some (.queue { cell with next := some nqueue }))
      enqueued := s.enqueued ++ [data] } :=
    h.of_caller rfl rfl rfl rfl hmutex (fun _ => Or.inl hholds) (Or.inl hholds) (by simp) (by simp)
      fun hnone _ => h.handling hholds hnone
  have hdue : s.sendQueue.tail = some tail := by
    change s.tailDue = some tail
    rw [tailDue_of_holds h hholds, hp]
    exact htail
  have hself : (s.setCaller p (.moving nqueue)).callers p = .moving nqueue :=
    Function.update_self ..
  have heq : ({ s.setCaller p (.moving nqueue) with
      mem := Function.update s.mem tail (some (.queue { cell with next := some nqueue }))
      enqueued := s.enqueued ++ [data] } : QueueThreads ι).sendQueue =
      { s.sendQueue.append nqueue with
        producers := Function.update s.sendQueue.producers p .idle
        enqueued := s.sendQueue.enqueued ++ [data] } := by
    have htailDue := tailDue_of_holds ht (by rw [hself]; rfl)
    have hsignal := signalDue_of_holds ht (by rw [hself]; rfl)
    have hbefore := signalDue_of_holds h hholds
    rw [hself] at htailDue hsignal
    rw [hp] at hbefore
    have happend : s.sendQueue.append nqueue = { s.sendQueue with
        mem := Function.update s.mem tail (some (.queue { cell with next := some nqueue }))
        tail := some nqueue } := by
      rw [SendQueue.append, hdue]
      dsimp only
      rw [show cellAt s.sendQueue.mem tail = some cell from hcell]
      rfl
    rw [happend, sendQueue, htailDue, hsignal]
    simp only [sendQueue, hbefore, Caller.tail, Caller.toSignal, Bool.false_and, Bool.or_false]
    exact congrArg (fun producers => ({ s.sendQueue with
      mem := Function.update s.mem tail (some (.queue { cell with next := some nqueue }))
      tail := some nqueue
      producers
      signalled := s.signalled
      enqueued := s.enqueued ++ [data] } : SendQueue (Option ι))) producers_update
  refine ⟨⟨ht, _, hand, _, heq ▸ hordered.enqueue hfilled,
    h.counts_of_caller hholds rfl (by simp) (by simp)⟩, Or.inr ⟨.enqueue p, ?_⟩⟩
  rw [heq, SendQueue.step, hfilled]

/-- The loop of `queue_send_get_size` looks at one cell after the other. -/
theorem leads_counting (h : Exclusive s) (hordered : Ordered s.sendQueue own hand cells)
    (hcounts : Counts s cells) {x : Addr} {count : Nat}
    (hp : s.callers p = .counting (some x) count) :
    ∃ cell, cellAt s.mem x = some cell ∧
      Leads s (s.setCaller p (.counting cell.next (count + 1))) := by
  obtain ⟨-, hx⟩ := hcounts.counting p (some x) count hp
  have hdrop := hordered.linked.drop count
  cases hrest : cells.drop count with
  | nil =>
    rw [hrest] at hx
    cases hx
  | cons e rest =>
    rw [hrest] at hx hdrop
    obtain ⟨-, next, hqueued, hnext⟩ := hdrop
    obtain ⟨b, hcell, -⟩ := hqueued.1.cellAt
    obtain rfl : x = e.1 := Option.some.inj hx
    have hbehind : cells.drop (count + 1) = rest := by
      rw [← List.drop_drop, hrest, List.drop_one, List.tail_cons]
    have hlt : count < cells.length := by
      by_contra hge
      rw [List.drop_of_length_le (Nat.le_of_not_lt hge)] at hrest
      cases hrest
    refine ⟨_, hcell, leads_holder (.counting next (count + 1)) h hordered hp rfl rfl rfl rfl
      (by simp) (by simp) (hcounts.of_caller rfl ?_ (by simp))⟩
    rintro y n hy
    obtain ⟨rfl, rfl⟩ := Caller.counting.inj hy
    exact ⟨hlt, by rw [hbehind]; exact hnext.eq_head⟩

/-- The next statement of a thread in a call. -/
theorem leads_caller (h : Exclusive s) (hordered : Ordered s.sendQueue own hand cells)
    (hcounts : Counts s cells) (hstep : s.callerStep p = some t) : Leads s t := by
  rw [callerStep] at hstep
  split at hstep
  case h_1 data nqueue hp =>
    rw [Option.ite_none_right_eq_some] at hstep
    obtain ⟨hfree, hstep⟩ := hstep
    cases hstep
    refine leads_lock h hordered hcounts (by rw [hp]; rfl) hfree (Or.inr ⟨data, nqueue, rfl⟩) ?_ ?_
    · rw [hp]
      rfl
    · rw [hp]
      simp
  case h_2 data nqueue hp =>
    split_ifs at hstep with htail
    · cases hstep
      exact leads_holder_of_ne (.heading data nqueue) h hordered hp rfl rfl rfl rfl
        (fun _ _ _ => htail) (by simp) (by simp) (by simp)
    · cases hstep
      exact leads_holder_of_ne (.linking data nqueue) h hordered hp rfl rfl rfl rfl (by simp)
        (fun _ _ _ => htail) (by simp) (by simp)
  case h_3 data nqueue hp =>
    cases hstep
    exact leads_heading h hordered hp
  case h_4 nqueue hp =>
    cases hstep
    exact leads_holder_of_ne .signalling h hordered hp rfl rfl rfl rfl (by simp) (by simp)
      (by simp) (by simp)
  case h_5 hp =>
    cases hstep
    refine leads_holder_of_ne .unlocking h hordered hp rfl rfl ?_ rfl (by simp) (by simp) (by simp)
      (by simp)
    -- the signal is no longer due, but sent
    simp [Caller.toSignal]
  case h_6 data nqueue hp =>
    have hholds : (s.callers p).holds = true := by rw [hp]; rfl
    cases htail : s.tail with
    | none => exact absurd htail (h.linking p data nqueue hp)
    | some tail =>
      have hdue : s.sendQueue.tail = some tail := by
        change s.tailDue = some tail
        rw [tailDue_of_holds h hholds, hp]
        exact htail
      obtain ⟨cell, hcell⟩ := exists_cellAt_tail hordered hdue
      rw [htail] at hstep
      dsimp only at hstep
      rw [hcell] at hstep
      cases hstep
      exact leads_linking h hordered hp htail hcell
  case h_7 nqueue hp =>
    cases hstep
    exact leads_holder_of_ne .unlocking h hordered hp rfl rfl rfl rfl (by simp) (by simp)
      (by simp) (by simp)
  case h_8 hp =>
    cases hstep
    exact leads_holder_of_ne .idle h hordered hp rfl rfl rfl rfl (by simp) (by simp)
      (by simp) (by simp)
  case h_9 hp =>
    rw [Option.ite_none_right_eq_some] at hstep
    obtain ⟨hfree, hstep⟩ := hstep
    cases hstep
    refine leads_lock h hordered hcounts (by rw [hp]; rfl) hfree (Or.inl rfl) ?_ ?_
    · rw [hp]
      rfl
    · rw [hp]
      simp
  case h_10 hp =>
    cases hstep
    refine leads_holder (.counting s.head 0) h hordered hp rfl rfl rfl rfl (by simp) (by simp)
      (hcounts.of_caller rfl ?_ (by simp))
    rintro x count hx
    obtain ⟨rfl, rfl⟩ := Caller.counting.inj hx
    exact ⟨Nat.zero_le _, hordered.linked.eq_head⟩
  case h_11 count hp =>
    obtain ⟨hle, hx⟩ := hcounts.counting p none count hp
    cases hstep
    refine leads_holder (.counted count) h hordered hp rfl rfl rfl rfl (by simp) (by simp)
      (hcounts.of_caller rfl (by simp) ?_)
    intro n hn
    obtain rfl := Caller.counted.inj hn
    have hnil : cells.drop count = [] := List.map_eq_nil_iff.mp (List.head?_eq_none_iff.mp hx.symm)
    exact Nat.le_antisymm hle (List.drop_eq_nil_iff.mp hnil)
  case h_12 x count hp =>
    obtain ⟨cell, hcell, hleads⟩ := leads_counting h hordered hcounts hp
    rw [hcell] at hstep
    cases hstep
    exact hleads
  case h_13 count hp =>
    cases hstep
    exact leads_holder_of_ne .idle h hordered hp rfl rfl rfl rfl (by simp) (by simp)
      (by simp) (by simp)
  case h_14 => cases hstep
  case h_15 => cases hstep

end Sound

end QueueThreads

end OldRadio.First
