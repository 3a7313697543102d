import OldRadio.Library.PriorityBag
import OldRadio.Second.Queue

/-!
# The event queue is a priority queue

A queue of the source, with the invariant it keeps, does what the operations do
to the bag of its pending events. The only failure is inserting into a queue
that holds 2^20 events already.
-/

namespace OldRadio.Second

open Library

/-- A queue together with the invariant of its array. -/
structure EventQueue where
  /-- The queue of the source. -/
  queue : Queue
  /-- The invariant every operation keeps. -/
  valid : queue.Valid

namespace EventQueue

/-- The bag of pending events. -/
def pending (q : EventQueue) : Multiset QueueEvent := q.queue.pending

/-- The queue of `queue_new`. -/
def new : EventQueue := { queue := queueNew, valid := queueNew_valid }

@[simp] theorem new_pending : new.pending = 0 := rfl

/-- A successful insertion keeps the invariant. -/
theorem valid_of_insert (q : EventQueue) {event : QueueEvent} {queue : Queue}
    (h : queueInsert q.queue event = .ok queue) :
    queue.Valid ∧ queue.pending = event ::ₘ q.pending := by
  have hn : q.queue.nevents < queueHeapSizeMax := by
    by_contra hge
    rw [queueInsert_full q.valid event (by omega)] at h
    cases h
  obtain ⟨queue', hrun, hvalid, hpending⟩ := queueInsert_valid q.valid event hn
  obtain rfl : queue' = queue := Except.ok.inj (hrun.symm.trans h)
  exact ⟨hvalid, hpending⟩

/-- `queue_insert` on a queue with its invariant. -/
def insert (q : EventQueue) (event : QueueEvent) : Except Abort EventQueue :=
  match h : queueInsert q.queue event with
  | .ok queue => .ok { queue, valid := (q.valid_of_insert h).1 }
  | .error e => .error e

/-- A successful pop keeps the invariant. -/
theorem valid_of_pop (q : EventQueue) {event : QueueEvent} {queue : Queue}
    (h : queuePop q.queue = .ok (event, queue)) : queue.Valid := by
  by_cases hpos : q.queue.nevents = 0
  · rw [queuePop, if_pos hpos] at h
    cases h
    exact q.valid
  · obtain ⟨queue', hrun, hvalid, -⟩ := queuePop_valid q.valid hpos
    cases hrun.symm.trans h
    exact hvalid

/-- `queue_pop` on a queue with its invariant. -/
def pop (q : EventQueue) : Except Abort (QueueEvent × EventQueue) :=
  match h : queuePop q.queue with
  | .ok (event, queue) => .ok (event, { queue, valid := q.valid_of_pop h })
  | .error e => .error e

/-- A queue with room takes every event. -/
theorem insert_of_lt (q : EventQueue) (event : QueueEvent)
    (h : q.pending.card < queueHeapSizeMax) :
    ∃ q', q.insert event = .ok q' ∧ q'.pending = event ::ₘ q.pending := by
  obtain ⟨queue, hrun, hvalid, hpending⟩ :=
    queueInsert_valid q.valid event (by rwa [pending, Queue.card_pending] at h)
  refine ⟨⟨queue, hvalid⟩, ?_, hpending⟩
  rw [insert]
  split
  · rename_i queue' hrun'
    cases hrun.symm.trans hrun'
    rfl
  · rename_i e hrun'
    cases hrun.symm.trans hrun'

/-- A successful insertion adds the event. -/
theorem insert_ok {q q' : EventQueue} {event : QueueEvent} (h : q.insert event = .ok q') :
    q'.pending = event ::ₘ q.pending := by
  rw [insert] at h
  split at h
  · rename_i queue hrun
    cases h
    exact (q.valid_of_insert hrun).2
  · cases h

/-- An insertion fails at a full queue only. -/
theorem insert_error {q : EventQueue} {event : QueueEvent} {e : Abort}
    (h : q.insert event = .error e) : e = .queueFull := by
  by_cases hn : q.pending.card < queueHeapSizeMax
  · obtain ⟨q', hrun, -⟩ := q.insert_of_lt event hn
    cases hrun.symm.trans h
  · have hfull := queueInsert_full q.valid event (by
      rwa [pending, Queue.card_pending, not_lt] at hn)
    rw [insert] at h
    split at h
    · rename_i queue hrun
      cases hfull.symm.trans hrun
    · rename_i e' hrun
      cases hfull.symm.trans hrun
      exact (Except.error.inj h).symm

/-- Popping an empty queue answers the null event. -/
theorem pop_of_zero {q : EventQueue} (h : q.pending = 0) : q.pop = .ok (queueEventNull, q) := by
  have hzero : q.queue.nevents = 0 := by
    rw [← Queue.card_pending, show q.queue.pending = 0 from h, Multiset.card_zero]
  have hrun : queuePop q.queue = .ok (queueEventNull, q.queue) := by
    rw [queuePop, if_pos hzero]
    rfl
  rw [pop]
  split
  · rename_i event queue hrun'
    cases hrun.symm.trans hrun'
    rfl
  · rename_i e hrun'
    cases hrun.symm.trans hrun'

/-- Popping a queue with pending events removes one that is due first. -/
theorem pop_of_ne_zero {q : EventQueue} (h : q.pending ≠ 0) :
    ∃ e q', q.pop = .ok (e, q') ∧ q.pending = e ::ₘ q'.pending ∧
      ∀ f ∈ q.pending, e.vtime.toNat ≤ f.vtime.toNat := by
  have hpos : q.queue.nevents ≠ 0 := by
    rw [← Queue.card_pending]
    exact mt Multiset.card_eq_zero.mp h
  obtain ⟨queue, hrun, hvalid, hpending⟩ := queuePop_valid q.valid hpos
  refine ⟨q.queue.event 0, ⟨queue, hvalid⟩, ?_, hpending, fun f hf => q.valid.first_le hf⟩
  rw [pop]
  split
  · rename_i event queue' hrun'
    cases hrun.symm.trans hrun'
    rfl
  · rename_i e hrun'
    cases hrun.symm.trans hrun'

/-- Every pop succeeds; what it answers was pending, unless nothing was. -/
theorem pop_cases (q : EventQueue) :
    (q.pending = 0 ∧ q.pop = .ok (queueEventNull, q)) ∨
      ∃ e q', q.pop = .ok (e, q') ∧ q.pending = e ::ₘ q'.pending ∧
        ∀ f ∈ q.pending, e.vtime.toNat ≤ f.vtime.toNat := by
  by_cases h : q.pending = 0
  · exact Or.inl ⟨h, pop_of_zero h⟩
  · exact Or.inr (pop_of_ne_zero h)

/-- An event that is popped before the end of time was pending, and due first. -/
theorem pop_ok {q q' : EventQueue} {e : QueueEvent} (h : q.pop = .ok (e, q'))
    (hinf : e.vtime ≠ vtimeInf) :
    q.pending = e ::ₘ q'.pending ∧ ∀ f ∈ q.pending, e.vtime.toNat ≤ f.vtime.toNat := by
  rcases q.pop_cases with ⟨-, hnull⟩ | ⟨f, q'', hrun, hpending, hfirst⟩
  · cases hnull.symm.trans h
    exact absurd rfl hinf
  · cases hrun.symm.trans h
    exact ⟨hpending, hfirst⟩

end EventQueue

/-! ## Sequences of operations -/

/-- One operation of the source, with its answer. -/
def queueOp (queue : Queue) : BagOp QueueEvent → Except Abort (Option QueueEvent × Queue)
  | .insert event => do
    let queue ← queueInsert queue event
    return (none, queue)
  | .top => do
    let e ← queueTop queue
    return (some e, queue)
  | .pop => do
    let (e, queue) ← queuePop queue
    return (some e, queue)

/-- A sequence of operations, with their answers. -/
def queueRun : Queue → List (BagOp QueueEvent) → Except Abort (List (Option QueueEvent) × Queue)
  | queue, [] => return ([], queue)
  | queue, op :: ops => do
    let (answer, queue) ← queueOp queue op
    let (answers, queue) ← queueRun queue ops
    return (answer :: answers, queue)

/-- The events of the operations are due before the end of time. -/
def BeforeInf (op : BagOp QueueEvent) : Prop := ∀ e, op = .insert e → e.vtime < vtimeInf

instance : DecidablePred BeforeInf
  | .insert e => decidable_of_iff (e.vtime < vtimeInf)
    ⟨fun h f hf => by cases hf; exact h, fun h => h e rfl⟩
  | .top => isTrue fun _ h => by cases h
  | .pop => isTrue fun _ h => by cases h

private theorem isFirst_first {queue : Queue} (h : queue.Valid) (hpos : queue.nevents ≠ 0)
    (hinf : ∀ e ∈ queue.pending, e.vtime < vtimeInf) :
    IsFirst QueueEvent.key queueEventNull queue.pending (queue.event 0) where
  mem := (queueTop_valid h hpos).2
  le _ hf := h.first_le hf
  lt_null := UInt64.lt_iff_toNat_lt.mp (hinf _ (queueTop_valid h hpos).2)

/-- One operation on a valid queue does to its pending events what it does to a bag. -/
theorem queueOp_step {queue : Queue} (h : queue.Valid)
    (hinf : ∀ e ∈ queue.pending, e.vtime < vtimeInf) {op : BagOp QueueEvent} (hop : BeforeInf op)
    (hcount : op.countAfter queue.pending.card ≤ queueHeapSizeMax) :
    ∃ answer next, queueOp queue op = .ok (answer, next) ∧ next.Valid ∧
      (∀ e ∈ next.pending, e.vtime < vtimeInf) ∧
      BagStep QueueEvent.key queueEventNull queue.pending op answer next.pending := by
  have hzero : queue.nevents = 0 → queue.pending = 0 := fun hn => by
    rw [← Multiset.card_eq_zero, Queue.card_pending, hn]
  cases op with
  | insert event =>
    rw [Queue.card_pending, BagOp.countAfter] at hcount
    obtain ⟨next, hrun, hvalid, hpending⟩ := queueInsert_valid h event (by omega)
    refine ⟨none, next, ?_, hvalid, ?_, ?_⟩
    · rw [queueOp, hrun]
      rfl
    · intro e he
      rw [hpending, Multiset.mem_cons] at he
      rcases he with rfl | he
      · exact hop e rfl
      · exact hinf e he
    · rw [hpending]
      exact .insert event
  | top =>
    by_cases hn : queue.nevents = 0
    · refine ⟨some queueEventNull, queue, ?_, h, hinf, ?_⟩
      · rw [queueOp, queueTop, if_pos hn]
        rfl
      · rw [hzero hn]
        exact .topEmpty
    · refine ⟨some (queue.event 0), queue, ?_, h, hinf, .top (isFirst_first h hn hinf)⟩
      rw [queueOp, (queueTop_valid h hn).1]
      rfl
  | pop =>
    by_cases hn : queue.nevents = 0
    · refine ⟨some queueEventNull, queue, ?_, h, hinf, ?_⟩
      · rw [queueOp, queuePop, if_pos hn]
        rfl
      · rw [hzero hn]
        exact .popEmpty
    · obtain ⟨next, hrun, hvalid, hpending⟩ := queuePop_valid h hn
      refine ⟨some (queue.event 0), next, ?_, hvalid, ?_, ?_⟩
      · rw [queueOp, hrun]
        rfl
      · exact fun e he => hinf e (by rw [hpending]; exact Multiset.mem_cons_of_mem he)
      · have hfirst := isFirst_first h hn hinf
        rw [hpending] at hfirst ⊢
        exact .pop hfirst

/-- A sequence of operations on a valid queue does to its pending events what it does to a bag. -/
theorem queueRun_run {queue : Queue} (h : queue.Valid)
    (hinf : ∀ e ∈ queue.pending, e.vtime < vtimeInf) {ops : List (BagOp QueueEvent)}
    (hops : ∀ op ∈ ops, BeforeInf op)
    (hcount : ∀ k ≤ ops.length, bagCount queue.pending.card (ops.take k) ≤ queueHeapSizeMax) :
    ∃ answers last, queueRun queue ops = .ok (answers, last) ∧ last.Valid ∧
      BagRun QueueEvent.key queueEventNull queue.pending ops answers last.pending := by
  induction ops generalizing queue with
  | nil => exact ⟨[], queue, rfl, h, .nil _⟩
  | cons op ops ih =>
    have hfirst : op.countAfter queue.pending.card ≤ queueHeapSizeMax := hcount 1 (by simp)
    obtain ⟨answer, next, hrun, hvalid, hinf', hstep⟩ :=
      queueOp_step h hinf (hops op List.mem_cons_self) hfirst
    have hrest : ∀ k ≤ ops.length,
        bagCount next.pending.card (ops.take k) ≤ queueHeapSizeMax := fun k hk => by
      rw [hstep.card, ← bagCount_cons, ← List.take_succ_cons]
      exact hcount (k + 1) (by rw [List.length_cons]; omega)
    obtain ⟨answers, last, hruns, hlast, hsteps⟩ :=
      ih hvalid hinf' (fun op' h' => hops op' (List.mem_cons_of_mem op h')) hrest
    refine ⟨answer :: answers, last, ?_, hlast, .cons hstep hsteps⟩
    simp only [queueRun, hrun, ok_bind, hruns, pure_eq_ok]

/-- Operations from `queue_new` that never hold more than 2^20 events succeed and answer as a
priority queue does. -/
theorem eventQueue_priorityQueue (ops : List (BagOp QueueEvent))
    (hinf : ∀ op ∈ ops, BeforeInf op)
    (hcount : ∀ k ≤ ops.length, bagCount 0 (ops.take k) ≤ queueHeapSizeMax) :
    ∃ answers queue, queueRun queueNew ops = .ok (answers, queue) ∧
      BagRun QueueEvent.key queueEventNull 0 ops answers queue.pending := by
  obtain ⟨answers, queue, hrun, -, hsteps⟩ := queueRun_run queueNew_valid
    (fun e he => absurd he (Multiset.notMem_zero e)) hinf hcount
  exact ⟨answers, queue, hrun, hsteps⟩

/-- Timer events of node 0 due at a given time. -/
private def timerAt (vtime : VTime) : QueueEvent :=
  { vtime, node := some 0, packet := none, extra := none }

theorem eventQueue_priorityQueue_threeTimers :
    ∃ answers queue,
      queueRun queueNew [.insert (timerAt 5), .insert (timerAt 3), .top, .pop,
        .insert (timerAt 4), .pop, .pop, .pop] = .ok (answers, queue) ∧
      BagRun QueueEvent.key queueEventNull 0 [.insert (timerAt 5), .insert (timerAt 3), .top, .pop,
        .insert (timerAt 4), .pop, .pop, .pop] answers queue.pending :=
  eventQueue_priorityQueue _ (by decide) (by decide)

end OldRadio.Second
