import OldRadio.First.SendQueueOrder

/-!
# Runs of the send queue

In every state that the threads reach, what has been sent is what has been
queued, as far as it has gone; the head and the tail are the ends of one list;
and a sender that waits while something is queued has been signalled. The
sender's own steps then send all that is queued.
-/

namespace OldRadio.First

open Library

variable {ι : Type} [DecidableEq ι] {s t : SendQueue ι}

/-- A step as a relation. -/
def SendQueue.Step (s : SendQueue ι) (action : Action ι) (t : SendQueue ι) : Prop :=
  s.step action = some t

/-- In every state that is reached, some owners, packets and cells are in order. -/
theorem ordered_of_run {actions : List (Action ι)}
    (h : Run SendQueue.Step (queueStart ι) actions s) :
    ∃ own hand cells, Ordered s own hand cells := by
  refine h.keeps (I := fun s => ∃ own hand cells, Ordered s own hand cells) ?_
    ⟨fun _ => .queue, [], [], ordered_queueStart _⟩
  rintro s action t ⟨own, hand, cells, hordered⟩ hstep
  exact hordered.step hstep

/-! ## What the order says -/

section Read

omit [DecidableEq ι]

variable {own : Addr → Owner ι} {hand : List (List UInt8)} {cells : List (Addr × List UInt8)}

theorem Packet.packetAt {mem : Memory} {a : Addr} {data : List UInt8} {next : Option Addr}
    (h : Packet mem own a data next) : PacketAt mem a data next := by
  obtain ⟨b, hcell, hbytes, -⟩ := h.cellAt
  refine ⟨_, hcell, ?_, rfl⟩
  rw [bytesOf]
  dsimp only
  rw [hbytes]
  simp

theorem Ordered.inHand (h : Ordered s own hand cells) : s.inHand = hand := by
  have hsender := h.sender
  unfold SendQueue.inHand
  generalize s.sender = sender at hsender
  cases hsender with
  | locking => rfl
  | waiting => rfl
  | sending packet owned =>
    obtain ⟨cell, hcell, hbytes, -⟩ := packet.packetAt
    dsimp only
    rw [hcell, Option.bind_some, hbytes]
    rfl
  | sent packet owned => rfl
  | freed here owned => rfl

theorem Ordered.head_eq_none_iff (h : Ordered s own hand cells) :
    s.head = none ↔ s.tail = none := by
  rw [h.linked.eq_none_iff, h.cells_eq_nil_iff]

/-- The tail is reached from the head, and nothing comes behind it. -/
theorem Ordered.reaches (h : Ordered s own hand cells) {tail : Addr} (htail : s.tail = some tail) :
    ∃ head, s.head = some head ∧ Relation.ReflTransGen (NextCell (PacketAt s.mem)) head tail ∧
      ∃ last, PacketAt s.mem tail last none := by
  obtain ⟨front, last, rfl⟩ := h.exists_last htail
  have hlinked : Linked (PacketAt s.mem) s.head (front ++ [(tail, last)]) :=
    h.linked.imp fun _ _ _ _ hqueued => hqueued.1.packetAt
  obtain ⟨head, hhead, hreach⟩ := hlinked.reaches
  exact ⟨head, hhead, hreach, last, hlinked.last⟩

end Read

/-! ## Draining -/

/-- The sender's own steps lead to a state in which all that is queued has been sent. -/
def Drains (s : SendQueue ι) : Prop :=
  ∃ actions t, (∀ action ∈ actions, action.ofSender = true) ∧ Run SendQueue.Step s actions t ∧
    t.enqueued = s.enqueued ∧ t.transmitted = s.enqueued

theorem Drains.step (h : Drains t) (action : Action ι) (hof : action.ofSender = true)
    (hstep : s.step action = some t) (hsame : t.enqueued = s.enqueued) : Drains s := by
  obtain ⟨actions, u, hall, hrun, henqueued, htransmitted⟩ := h
  exact ⟨action :: actions, u, List.forall_mem_cons.mpr ⟨hof, hall⟩, .cons hstep hrun,
    henqueued.trans hsame, htransmitted.trans hsame⟩

section Drain

variable {own : Addr → Owner ι} {hand : List (List UInt8)} {cells : List (Addr × List UInt8)}
  {xqueue : Addr}

theorem Ordered.drains_freed (h : Ordered s own hand cells) (hs : s.sender = .freed xqueue)
    (hdrains : ∀ (t : SendQueue ι) own hand, Ordered t own hand cells →
      t.sender = .locking → Drains t) :
    Drains s := by
  obtain ⟨h', hs'⟩ := h.freeCell hs
  exact (hdrains _ _ _ h' hs').step .freeCell rfl
    (by rw [SendQueue.step, hs]) (SendQueue.release_enqueued ..)

theorem Ordered.drains_sent (h : Ordered s own hand cells) (hs : s.sender = .sent xqueue)
    (hdrains : ∀ (t : SendQueue ι) own hand, Ordered t own hand cells →
      t.sender = .locking → Drains t) :
    Drains s := by
  obtain ⟨b, hb, h', hs'⟩ := h.freeData hs
  exact (h'.drains_freed hs' hdrains).step .freeData rfl
    (by rw [SendQueue.step, hs]; dsimp only; rw [hb]) (SendQueue.release_enqueued ..)

theorem Ordered.drains_sending (h : Ordered s own hand cells) (hs : s.sender = .sending xqueue)
    (hdrains : ∀ (t : SendQueue ι) own hand, Ordered t own hand cells →
      t.sender = .locking → Drains t) :
    Drains s := by
  obtain ⟨h', hs'⟩ := h.send hs
  exact (h'.drains_sent hs' hdrains).step .send rfl
    (by rw [SendQueue.step, hs]) (SendQueue.transmit_enqueued ..)

/-- A sender that is about to lock the mutex takes one cell after the other. -/
theorem Ordered.drains_locking (h : Ordered s own hand cells) (hs : s.sender = .locking) :
    Drains s := by
  induction cells generalizing s own hand with
  | nil =>
    obtain rfl := h.hand_eq_nil hs
    refine ⟨[], s, fun _ hmem => absurd hmem List.not_mem_nil, .nil s, rfl, ?_⟩
    rw [h.history]
    simp
  | cons e rest ih =>
    obtain ⟨h', hs'⟩ := h.dequeue_cons hs
    exact (h'.drains_sending hs' fun t own hand ht htl => ih ht htl).step .dequeue rfl
      (by rw [SendQueue.step, if_pos hs]) (SendQueue.pop_enqueued s)

/-- Whatever the sender is doing, it can go on until all that is queued has been sent. -/
theorem Ordered.drains (h : Ordered s own hand cells) : Drains s := by
  have hlocking : ∀ (t : SendQueue ι) own hand, Ordered t own hand cells →
      t.sender = .locking → Drains t := fun _ _ _ ht hs => ht.drains_locking hs
  cases hs : s.sender with
  | locking => exact h.drains_locking hs
  | waiting =>
    exact (hlocking _ _ _ (h.wake hs) rfl).step .wake rfl
      (by rw [SendQueue.step, if_pos hs]) rfl
  | sending xqueue => exact h.drains_sending hs hlocking
  | sent xqueue => exact h.drains_sent hs hlocking
  | freed xqueue => exact h.drains_freed hs hlocking

end Drain

/-- The send queue is first in, first out, and loses no packet and no wake-up. -/
theorem sendQueue_fifo {actions : List (Action ι)}
    (h : Run SendQueue.Step (queueStart ι) actions s) :
    (∃ cells : List (Addr × List UInt8), Linked (PacketAt s.mem) s.head cells ∧
        s.enqueued = s.transmitted ++ s.inHand ++ cells.map Prod.snd) ∧
      (s.head = none ↔ s.tail = none) ∧
      (∀ tail, s.tail = some tail → ∃ head, s.head = some head ∧
        Relation.ReflTransGen (NextCell (PacketAt s.mem)) head tail ∧
        ∃ last, PacketAt s.mem tail last none) ∧
      (s.sender = .waiting → s.head ≠ none → s.signalled = true) ∧
      Drains s ∧ s.fault = false := by
  obtain ⟨own, hand, cells, hordered⟩ := ordered_of_run h
  refine ⟨⟨cells, ?_, ?_⟩, hordered.head_eq_none_iff, fun tail => hordered.reaches,
    fun hwait hhead => ?_, hordered.drains, hordered.safe⟩
  · exact hordered.linked.imp fun _ _ _ _ hqueued => hqueued.1.packetAt
  · rw [hordered.inHand]
    exact hordered.history
  · exact (hordered.awake hwait).resolve_left fun hnil =>
      hhead (hordered.linked.eq_none_iff.mpr hnil)

/-- Two threads send while the sender first waits and then sends. -/
def twoThreads : List (Action Bool) := [
  .dequeue, .copy false [1, 2] 0, .copy true [3] 1, .fill true 2, .fill false 3, .enqueue true,
  .enqueue false, .wake, .dequeue, .send, .freeData, .copy true [4] 1]

/-- The sender has sent the packet that was linked first and holds none. -/
theorem sendQueue_fifo_twoThreads :
    ∃ s, Run SendQueue.Step (queueStart Bool) twoThreads s ∧ s.transmitted = [[3]] ∧
      s.enqueued = [[3], [1, 2]] ∧ (s.head = none ↔ s.tail = none) ∧ Drains s := by
  cases h : twoThreads.foldlM SendQueue.step (queueStart Bool) with
  | none =>
    have hsome : (twoThreads.foldlM SendQueue.step (queueStart Bool)).isSome = true := by
      decide +kernel
    rw [h] at hsome
    cases hsome
  | some s =>
    have hrun := Run.of_foldlM h
    obtain ⟨-, hends, -, -, hdrains, -⟩ := sendQueue_fifo hrun
    have hsent : (twoThreads.foldlM SendQueue.step (queueStart Bool)).map
        (fun s => (s.transmitted, s.enqueued)) = some ([[3]], [[3], [1, 2]]) := by
      decide +kernel
    rw [h, Option.map_some, Option.some_inj, Prod.mk.injEq] at hsent
    exact ⟨s, hrun, hsent.1, hsent.2, hends, hdrains⟩

end OldRadio.First
