import Mathlib.Data.List.Nodup
import OldRadio.First.SendQueue
import OldRadio.Library.LinkedList
import OldRadio.Library.Transition

/-!
# Packets leave the send queue once and in order

Every cell in use belongs to one thread or to the queue, and every copy of a
packet to one cell or to the thread that is about to make the cell. So a step
changes nothing that belongs to others: the cells of the queue stay linked from
the head to the tail, and what has been linked in is what has been sent, what the
sender holds, and what is linked, in this order. The sender waits only when the
queue is empty, and the packet that makes it non-empty comes with a signal.
-/

namespace OldRadio.First

open Library

variable {ι : Type}

/-- Whom a piece of memory belongs to. -/
inductive Owner (ι : Type) where
  /-- A thread in `queue_send_packet`. -/
  | producer (p : ι)
  /-- The queue. -/
  | queue
  /-- The sender. -/
  | sender
  /-- A cell. -/
  | cell (a : Addr)

/-- A cell with its copy of a packet. -/
def Packet (mem : Memory) (own : Addr → Owner ι) (a : Addr) (data : List UInt8)
    (next : Option Addr) : Prop :=
  ∃ b, mem a = some (.queue { data := b, length := data.length, next }) ∧
    mem b = some (.bytes data) ∧ own b = .cell a

/-- What a thread in `queue_send_packet` has. -/
inductive ProducerHas (mem : Memory) (own : Addr → Owner ι) (p : ι) : Producer → Prop where
  | idle : ProducerHas mem own p .idle
  | copied {data : List UInt8} {qdata : Addr} (bytes : mem qdata = some (.bytes data))
      (owned : own qdata = .producer p) : ProducerHas mem own p (.copied data qdata)
  | filled {data : List UInt8} {nqueue : Addr} (packet : Packet mem own nqueue data none)
      (owned : own nqueue = .producer p) : ProducerHas mem own p (.filled data nqueue)

/-- What the sender has, and the packets that it has taken and not yet sent. -/
inductive SenderHas (mem : Memory) (own : Addr → Owner ι) : Sender → List (List UInt8) → Prop where
  | locking : SenderHas mem own .locking []
  | waiting : SenderHas mem own .waiting []
  | sending {x : Addr} {data : List UInt8} {next : Option Addr}
      (packet : Packet mem own x data next) (owned : own x = .sender) :
      SenderHas mem own (.sending x) [data]
  | sent {x : Addr} {data : List UInt8} {next : Option Addr}
      (packet : Packet mem own x data next) (owned : own x = .sender) :
      SenderHas mem own (.sent x) []
  | freed {x : Addr} {cell : QueueT} (here : mem x = some (.queue cell)) (owned : own x = .sender) :
      SenderHas mem own (.freed x) []

/-- A cell of the queue. -/
def Queued (mem : Memory) (own : Addr → Owner ι) (a : Addr) (data : List UInt8)
    (next : Option Addr) : Prop :=
  Packet mem own a data next ∧ own a = .queue

/-- What every step keeps, for some owners, the packets in the sender's hand, and the cells of the
queue with their packets. -/
structure Ordered (s : SendQueue ι) (own : Addr → Owner ι) (hand : List (List UInt8))
    (cells : List (Addr × List UInt8)) : Prop where
  /-- Every thread has what it is about to use. -/
  producers : ∀ p, ProducerHas s.mem own p (s.producers p)
  sender : SenderHas s.mem own s.sender hand
  /-- The cells are linked from the head. -/
  linked : Linked (Queued s.mem own) s.head cells
  /-- The tail is the last of them. -/
  tail : s.tail = (cells.map Prod.fst).getLast?
  nodup : (cells.map Prod.fst).Nodup
  /-- Nothing is lost, repeated, changed or out of order. -/
  history : s.enqueued = s.transmitted ++ hand ++ cells.map Prod.snd
  /-- The sender waits for an empty queue, or has been signalled. -/
  awake : s.sender = .waiting → cells = [] ∨ s.signalled = true
  /-- Only allocated memory is used. -/
  safe : s.fault = false

/-- Nothing is allocated and nothing is queued at the start. -/
theorem ordered_queueStart (own : Addr → Owner ι) : Ordered (queueStart ι) own [] [] where
  producers _ := .idle
  sender := .locking
  linked := rfl
  tail := rfl
  nodup := List.nodup_nil
  history := rfl
  awake h := by cases h
  safe := rfl

/-! ## What a change elsewhere keeps -/

/-- Allocated memory that belongs to someone, itself or with its cell. -/
def BelongsTo (mem : Memory) (own : Addr → Owner ι) (o : Owner ι) (y : Addr) : Prop :=
  mem y ≠ none ∧ (own y = o ∨ ∃ a, own y = .cell a ∧ own a = o)

/-- A change at one address keeps everything that is not there. -/
structure ElseKept (mem mem' : Memory) (own own' : Addr → Owner ι) (y : Addr) : Prop where
  mem : ∀ a, a ≠ y → mem' a = mem a
  own : ∀ a, a ≠ y → own' a = own a

theorem elseKept_update (mem : Memory) (own : Addr → Owner ι) (y : Addr) (block : Option Block)
    (o : Owner ι) :
    ElseKept mem (Function.update mem y block) own (Function.update own y o) y :=
  ⟨fun _ h => Function.update_of_ne h .., fun _ h => Function.update_of_ne h ..⟩

theorem elseKept_mem (mem : Memory) (own : Addr → Owner ι) (y : Addr) (block : Option Block) :
    ElseKept mem (Function.update mem y block) own own y :=
  ⟨fun _ h => Function.update_of_ne h .., fun _ _ => rfl⟩

theorem elseKept_own (mem : Memory) (own : Addr → Owner ι) (y : Addr) (o : Owner ι) :
    ElseKept mem mem own (Function.update own y o) y :=
  ⟨fun _ _ => rfl, fun _ h => Function.update_of_ne h ..⟩

section Frame

variable {mem mem' : Memory} {own own' : Addr → Owner ι} {a y : Addr} {data : List UInt8}
  {next : Option Addr}

theorem not_belongsTo_of_none {o : Owner ι} (h : mem y = none) : ¬ BelongsTo mem own o y :=
  fun hy => hy.1 h

/-- What a thread or the queue has itself belongs to no other. -/
theorem not_belongsTo_of_own {o o' : Owner ι} (h : own y = o) (hne : o ≠ o')
    (hcell : ∀ a, o ≠ .cell a) : ¬ BelongsTo mem own o' y := by
  rintro ⟨-, hown | ⟨a, hown, -⟩⟩
  · exact hne (h.symm.trans hown)
  · exact hcell a (h.symm.trans hown)

theorem Packet.ne_none (h : Packet mem own a data next) : mem a ≠ none := by
  obtain ⟨b, hcell, -⟩ := h
  rw [hcell]
  exact Option.some_ne_none _

theorem ElseKept.packet (hkept : ElseKept mem mem' own own' y) (h : Packet mem own a data next)
    (ha : a ≠ y) (hb : own y ≠ .cell a) : Packet mem' own' a data next := by
  obtain ⟨b, hcell, hbytes, hown⟩ := h
  have hne : b ≠ y := by
    rintro rfl
    exact hb hown
  exact ⟨b, (hkept.mem a ha).trans hcell, (hkept.mem b hne).trans hbytes,
    (hkept.own b hne).trans hown⟩

/-- A packet of someone to whom the changed memory does not belong is kept. -/
theorem ElseKept.packet_of_owner (hkept : ElseKept mem mem' own own' y) {o : Owner ι}
    (h : Packet mem own a data next) (owned : own a = o) (hy : ¬ BelongsTo mem own o y) :
    Packet mem' own' a data next ∧ own' a = o := by
  have hne : a ≠ y := by
    rintro rfl
    exact hy ⟨h.ne_none, Or.inl owned⟩
  refine ⟨?_, (hkept.own a hne).trans owned⟩
  by_cases hb : own y = .cell a
  · -- The changed memory is the cell's copy; then it belongs to the owner, or is not allocated.
    have hnone : mem y = none := by
      by_contra hsome
      exact hy ⟨hsome, Or.inr ⟨a, hb, owned⟩⟩
    obtain ⟨b, hcell, hbytes, hown⟩ := h
    have hbne : b ≠ y := by
      rintro rfl
      rw [hnone] at hbytes
      cases hbytes
    exact ⟨b, (hkept.mem a hne).trans hcell, (hkept.mem b hbne).trans hbytes,
      (hkept.own b hbne).trans hown⟩
  · exact hkept.packet h hne hb

theorem ElseKept.producer (hkept : ElseKept mem mem' own own' y) {p : ι} {state : Producer}
    (h : ProducerHas mem own p state) (hy : ¬ BelongsTo mem own (.producer p) y) :
    ProducerHas mem' own' p state := by
  cases h with
  | idle => exact .idle
  | @copied data qdata bytes owned =>
    have hne : qdata ≠ y := by
      rintro rfl
      exact hy ⟨by rw [bytes]; exact Option.some_ne_none _, Or.inl owned⟩
    exact .copied ((hkept.mem _ hne).trans bytes) ((hkept.own _ hne).trans owned)
  | filled packet owned =>
    obtain ⟨hpacket, howned⟩ := hkept.packet_of_owner packet owned hy
    exact .filled hpacket howned

theorem ElseKept.sender (hkept : ElseKept mem mem' own own' y) {state : Sender}
    {hand : List (List UInt8)} (h : SenderHas mem own state hand)
    (hy : ¬ BelongsTo mem own .sender y) : SenderHas mem' own' state hand := by
  cases h with
  | locking => exact .locking
  | waiting => exact .waiting
  | sending packet owned =>
    obtain ⟨hpacket, howned⟩ := hkept.packet_of_owner packet owned hy
    exact .sending hpacket howned
  | sent packet owned =>
    obtain ⟨hpacket, howned⟩ := hkept.packet_of_owner packet owned hy
    exact .sent hpacket howned
  | @freed x cell here owned =>
    have hne : x ≠ y := by
      rintro rfl
      exact hy ⟨by rw [here]; exact Option.some_ne_none _, Or.inl owned⟩
    exact .freed ((hkept.mem _ hne).trans here) ((hkept.own _ hne).trans owned)

theorem ElseKept.linked (hkept : ElseKept mem mem' own own' y) {p : Option Addr}
    {cells : List (Addr × List UInt8)} (h : Linked (Queued mem own) p cells)
    (hy : ¬ BelongsTo mem own .queue y) : Linked (Queued mem' own') p cells :=
  h.imp fun _ _ _ _ hcell => hkept.packet_of_owner hcell.1 hcell.2 hy

end Frame

/-! ## The steps -/

section Steps

variable {s s' : SendQueue ι} {own : Addr → Owner ι} {hand : List (List UInt8)}
  {cells : List (Addr × List UInt8)} {p : ι} {data : List UInt8} {qdata nqueue xqueue : Addr}

theorem producersHave_update [DecidableEq ι] {mem : Memory} {own : Addr → Owner ι}
    {producers : ι → Producer} {state : Producer} (hp : ProducerHas mem own p state)
    (hothers : ∀ q, q ≠ p → ProducerHas mem own q (producers q)) (q : ι) :
    ProducerHas mem own q (Function.update producers p state q) := by
  rcases eq_or_ne q p with rfl | hne
  · rwa [Function.update_self]
  · rw [Function.update_of_ne hne]
    exact hothers q hne

/-- Copying a packet touches only new memory. -/
theorem Ordered.copy [DecidableEq ι] (h : Ordered s own hand cells) (hnew : s.mem qdata = none) :
    Ordered { s with
        mem := Function.update s.mem qdata (some (.bytes data))
        producers := Function.update s.producers p (.copied data qdata) }
      (Function.update own qdata (.producer p)) hand cells := by
  have hkept := elseKept_update s.mem own qdata (some (.bytes data)) (.producer p)
  have hother : ∀ o, ¬ BelongsTo s.mem own o qdata := fun o => not_belongsTo_of_none hnew
  refine ⟨?_, hkept.sender h.sender (hother _), hkept.linked h.linked (hother _), h.tail, h.nodup,
    h.history, h.awake, h.safe⟩
  refine producersHave_update (.copied (Function.update_self ..) (Function.update_self ..)) ?_
  exact fun q _ => hkept.producer (h.producers q) (hother _)

/-- Filling in a cell touches new memory, and hands the copy over to the cell. -/
theorem Ordered.fill [DecidableEq ι] (h : Ordered s own hand cells)
    (hp : s.producers p = .copied data qdata) (hnew : s.mem nqueue = none) :
    ∃ own', Ordered { s with
        mem := Function.update s.mem nqueue
          (some (.queue { data := qdata, length := data.length, next := none }))
        producers := Function.update s.producers p (.filled data nqueue) } own' hand cells := by
  have hhas := h.producers p
  rw [hp] at hhas
  cases hhas with
  | copied bytes owned =>
    have hcopy := elseKept_own s.mem own qdata (.cell nqueue)
    have hcell := elseKept_update s.mem (Function.update own qdata (.cell nqueue)) nqueue
      (some (.queue { data := qdata, length := data.length, next := none })) (.producer p)
    have hother : ∀ o, .producer p ≠ o → ¬ BelongsTo s.mem own o qdata := fun o hne =>
      not_belongsTo_of_own owned hne nofun
    have hfree : ∀ o, ¬ BelongsTo s.mem (Function.update own qdata (.cell nqueue)) o nqueue :=
      fun o => not_belongsTo_of_none hnew
    have hne : qdata ≠ nqueue := by
      rintro rfl
      rw [hnew] at bytes
      cases bytes
    refine ⟨_, ?_, hcell.sender (hcopy.sender h.sender (hother _ nofun)) (hfree _),
      hcell.linked (hcopy.linked h.linked (hother _ nofun)) (hfree _),
      h.tail, h.nodup, h.history, h.awake, h.safe⟩
    refine producersHave_update ?_ fun q hq => hcell.producer (hcopy.producer (h.producers q)
      (hother _ fun heq => hq (Owner.producer.inj heq).symm)) (hfree _)
    refine .filled ⟨qdata, Function.update_self .., ?_, ?_⟩ (Function.update_self ..)
    · exact (hcell.mem _ hne).trans bytes
    · exact (hcell.own _ hne).trans (Function.update_self ..)

/-- A queue without cells has no tail. -/
theorem Ordered.cells_eq_nil_iff (h : Ordered s own hand cells) : s.tail = none ↔ cells = [] := by
  rw [h.tail, List.getLast?_eq_none_iff, List.map_eq_nil_iff]

/-- The cell at the tail. -/
theorem Ordered.exists_last (h : Ordered s own hand cells) {tail : Addr}
    (htail : s.tail = some tail) : ∃ front last, cells = front ++ [(tail, last)] := by
  rw [h.tail] at htail
  rcases List.eq_nil_or_concat cells with rfl | ⟨front, e, rfl⟩
  · cases htail
  · rw [List.concat_eq_append, List.map_append, List.map_singleton, List.getLast?_concat] at htail
    exact ⟨front, e.2, by rw [List.concat_eq_append, ← Option.some.inj htail]⟩

/-- What the steps of a thread that links its cell need of the cell. -/
theorem Ordered.filled (h : Ordered s own hand cells) (hp : s.producers p = .filled data nqueue) :
    Packet s.mem own nqueue data none ∧ own nqueue = .producer p := by
  have hhas := h.producers p
  rw [hp] at hhas
  cases hhas with
  | filled packet owned => exact ⟨packet, owned⟩

theorem cellAt_eq_some {mem : Memory} {a : Addr} {cell : QueueT} :
    cellAt mem a = some cell ↔ mem a = some (.queue cell) := by
  unfold cellAt
  split
  · rename_i h
    rw [h, Option.some_inj, Option.some_inj, Block.queue.injEq]
  · rename_i h
    refine iff_of_false (by simp) fun hcell => h cell hcell

/-- A cell that is handed over stays a cell with its copy. -/
theorem Packet.give {mem : Memory} {a : Addr} {next : Option Addr} (h : Packet mem own a data next)
    (o : Owner ι) : Packet mem (Function.update own a o) a data next := by
  obtain ⟨b, hcell, hbytes, hown⟩ := h
  have hne : b ≠ a := by
    rintro rfl
    rw [hcell] at hbytes
    cases hbytes
  exact ⟨b, hcell, hbytes, (Function.update_of_ne hne ..).trans hown⟩

theorem Packet.cellAt {mem : Memory} {a : Addr} {next : Option Addr}
    (h : Packet mem own a data next) :
    ∃ b, cellAt mem a = some { data := b, length := data.length, next } ∧
      mem b = some (.bytes data) ∧ own b = .cell a := by
  obtain ⟨b, hcell, hbytes, hown⟩ := h
  exact ⟨b, cellAt_eq_some.mpr hcell, hbytes, hown⟩

/-- The cells of the queue belong to it. -/
theorem Ordered.own_of_mem (h : Ordered s own hand cells) {a : Addr}
    (ha : a ∈ cells.map Prod.fst) : own a = .queue := by
  obtain ⟨e, he, rfl⟩ := List.mem_map.mp ha
  obtain ⟨next, -, hown⟩ := h.linked.cell_of_mem he
  exact hown

/-- The cell that a thread has filled in is none of the queue. -/
theorem Ordered.filled_notMem (h : Ordered s own hand cells)
    (hp : s.producers p = .filled data nqueue) : nqueue ∉ cells.map Prod.fst := by
  intro hmem
  have hqueue := h.own_of_mem hmem
  rw [(h.filled hp).2] at hqueue
  cases hqueue

/-- The address of a cell, written into the last cell of the queue, links it behind the others. -/
theorem linked_concat {mem : Memory} {q : Option Addr} {front : List (Addr × List UInt8)}
    {tail b : Addr} {last : List UInt8}
    (h : Linked (Queued mem own) q (front ++ [(tail, last)])) (htail : tail ∉ front.map Prod.fst)
    (hne : nqueue ≠ tail) (hbytes : mem b = some (.bytes last)) (hb : own b = .cell tail)
    (hbne : b ≠ tail) (hqueued : Queued mem own nqueue data none) :
    Linked (Queued (Function.update mem tail
        (some (.queue { data := b, length := last.length, next := some nqueue }))) own) q
      (front ++ [(tail, last)] ++ [(nqueue, data)]) := by
  have hown := h.last.2
  have hlink := elseKept_mem mem own tail
    (some (.queue { data := b, length := last.length, next := some nqueue }))
  have hcell : ∀ a, own tail ≠ .cell a := by
    rw [hown]
    exact nofun
  refine h.concat (fun a v next hmem hqueued => ?_) ?_ ?_
  · have hane : a ≠ tail := by
      rintro rfl
      exact htail (List.mem_map_of_mem hmem)
    exact ⟨hlink.packet hqueued.1 hane (hcell a), hqueued.2⟩
  · exact ⟨⟨b, Function.update_self .., (hlink.mem b hbne).trans hbytes, hb⟩, hown⟩
  · exact ⟨hlink.packet hqueued.1 hne (hcell nqueue), hqueued.2⟩

/-- The section of `queue_send_packet` links the cell behind the others. -/
theorem Ordered.enqueue [DecidableEq ι] (h : Ordered s own hand cells)
    (hp : s.producers p = .filled data nqueue) :
    Ordered { s.append nqueue with
        producers := Function.update s.producers p .idle
        enqueued := s.enqueued ++ [data] }
      (Function.update own nqueue .queue) hand (cells ++ [(nqueue, data)]) := by
  obtain ⟨hpacket, howned⟩ := h.filled hp
  have hfresh := h.filled_notMem hp
  have hgive := elseKept_own s.mem own nqueue .queue
  have hother : ∀ o, .producer p ≠ o → ¬ BelongsTo s.mem own o nqueue := fun o hne =>
    not_belongsTo_of_own howned hne nofun
  have hproducers : ∀ q, q ≠ p →
      ProducerHas s.mem (Function.update own nqueue .queue) q (s.producers q) := fun q hq =>
    hgive.producer (h.producers q) (hother _ fun heq => hq (Owner.producer.inj heq).symm)
  have hsender := hgive.sender h.sender (hother _ nofun)
  have hlinked := hgive.linked h.linked (hother _ nofun)
  have hqueued : Queued s.mem (Function.update own nqueue .queue) nqueue data none :=
    ⟨hpacket.give _, Function.update_self ..⟩
  have hnodup : ((cells ++ [(nqueue, data)]).map Prod.fst).Nodup := by
    rw [List.map_append, List.map_singleton, ← List.concat_eq_append]
    exact List.Nodup.concat hfresh h.nodup
  have hlast : some nqueue = ((cells ++ [(nqueue, data)]).map Prod.fst).getLast? := by
    rw [List.map_append, List.map_singleton, List.getLast?_concat]
  have hhistory : s.enqueued ++ [data] =
      s.transmitted ++ hand ++ (cells ++ [(nqueue, data)]).map Prod.snd := by
    rw [h.history, List.map_append, List.map_singleton, List.append_assoc]
  cases htail : s.tail with
  | none =>
    obtain rfl : cells = [] := h.cells_eq_nil_iff.mp htail
    rw [SendQueue.append, htail]
    refine ⟨producersHave_update .idle hproducers, hsender, ⟨rfl, none, hqueued, rfl⟩, rfl, hnodup,
      hhistory, fun hwait => Or.inr ?_, h.safe⟩
    -- The signal reaches the sender if it waits.
    have hwait : s.sender = .waiting := hwait
    simp [hwait]
  | some tail =>
    obtain ⟨front, last, rfl⟩ := h.exists_last htail
    obtain ⟨hpacket_tail, hown_tail⟩ := hlinked.last
    obtain ⟨b, hcell, hbytes, hown⟩ := hpacket_tail.cellAt
    rw [SendQueue.append, htail]
    dsimp only
    rw [hcell]
    have hlink := elseKept_mem s.mem (Function.update own nqueue .queue) tail
      (some (.queue { data := b, length := last.length, next := some nqueue }))
    have hkeep : ∀ o, .queue ≠ o →
        ¬ BelongsTo s.mem (Function.update own nqueue .queue) o tail := fun o hne =>
      not_belongsTo_of_own hown_tail hne nofun
    have hne : nqueue ≠ tail := by
      rintro rfl
      exact hfresh (by simp)
    have hbne : b ≠ tail := by
      rintro rfl
      rw [cellAt_eq_some.mp hcell] at hbytes
      cases hbytes
    have htailFront : tail ∉ front.map Prod.fst := fun hmem => by
      have hnodup := h.nodup
      rw [List.map_append, List.nodup_append] at hnodup
      exact hnodup.2.2 tail hmem tail (by simp) rfl
    refine ⟨producersHave_update .idle fun q hq => hlink.producer (hproducers q hq) (hkeep _ nofun),
      hlink.sender hsender (hkeep _ nofun),
      linked_concat hlinked htailFront hne hbytes hown hbne hqueued, hlast, hnodup, hhistory,
      fun hwait => Or.inr ?_, h.safe⟩
    exact (h.awake hwait).resolve_left (by simp)

/-- A sender that is about to lock the mutex has no packet in its hand. -/
theorem Ordered.hand_eq_nil (h : Ordered s own hand cells) (hs : s.sender = .locking) :
    hand = [] := by
  have hsender := h.sender
  rw [hs] at hsender
  cases hsender
  rfl

/-- The section of `queue_sender` waits when nothing is queued. -/
theorem Ordered.dequeue_nil (h : Ordered s own hand []) (hs : s.sender = .locking) :
    Ordered s.pop own [] [] := by
  obtain rfl := h.hand_eq_nil hs
  rw [SendQueue.pop, h.linked]
  exact ⟨h.producers, .waiting, rfl, h.tail, h.nodup, h.history, fun _ => Or.inl rfl, h.safe⟩

/-- The section of `queue_sender` takes the first cell. -/
theorem Ordered.dequeue_cons (h : Ordered s own hand ((xqueue, data) :: cells))
    (hs : s.sender = .locking) :
    Ordered s.pop (Function.update own xqueue .sender) [data] cells ∧
      s.pop.sender = .sending xqueue := by
  obtain rfl := h.hand_eq_nil hs
  obtain ⟨hhead, next, ⟨hpacket, hown⟩, hrest⟩ := h.linked
  obtain ⟨b, hcell, -⟩ := hpacket.cellAt
  rw [SendQueue.pop, hhead]
  dsimp only
  rw [hcell]
  have htake := elseKept_own s.mem own xqueue .sender
  have hother : ∀ o, .queue ≠ o → ¬ BelongsTo s.mem own o xqueue := fun o hne =>
    not_belongsTo_of_own hown hne nofun
  obtain ⟨hfirst, hnodup⟩ := List.nodup_cons.mp h.nodup
  refine ⟨⟨fun q => htake.producer (h.producers q) (hother _ nofun),
    .sending (hpacket.give _) (Function.update_self ..), ?_, ?_, hnodup, ?_, nofun, h.safe⟩, rfl⟩
  · refine hrest.imp fun a v next hmem hqueued => ?_
    have hne : a ≠ xqueue := by
      rintro rfl
      exact hfirst (List.mem_map.mpr ⟨_, hmem, rfl⟩)
    exact ⟨htake.packet hqueued.1 hne (by rw [hown]; exact nofun),
      (htake.own a hne).trans hqueued.2⟩
  · dsimp only
    split
    · rename_i hnext
      rw [hrest.eq_none_iff.mp hnext]
      rfl
    · rename_i hnext
      rw [h.tail]
      cases cells with
      | nil => exact absurd hrest hnext
      | cons e rest => rw [List.map_cons, List.map_cons, List.getLast?_cons_cons]
  · rw [h.history, List.map_cons]
    simp

/-- The sender sends the packet that it has taken. -/
theorem Ordered.send (h : Ordered s own hand cells) (hs : s.sender = .sending xqueue) :
    Ordered (s.transmit xqueue) own [] cells ∧ (s.transmit xqueue).sender = .sent xqueue := by
  have hsender := h.sender
  rw [hs] at hsender
  cases hsender with
  | @sending _ data next packet owned =>
    obtain ⟨b, hcell, hbytes, -⟩ := packet.cellAt
    have hread : (cellAt s.mem xqueue).bind (bytesOf s.mem) = some data := by
      rw [hcell, Option.bind_some, bytesOf]
      dsimp only
      rw [hbytes]
      simp
    rw [SendQueue.transmit, hread]
    refine ⟨⟨h.producers, .sent packet owned, h.linked, h.tail, h.nodup, ?_, nofun, h.safe⟩, rfl⟩
    rw [h.history]
    simp

/-- Freeing the copy of a packet that is sent touches only what belongs to its cell. -/
theorem Ordered.freeData (h : Ordered s own hand cells) (hs : s.sender = .sent xqueue) :
    ∃ b, (cellAt s.mem xqueue).map QueueT.data = some b ∧
      Ordered (s.release b (.freed xqueue)) own hand cells ∧
      (s.release b (.freed xqueue)).sender = .freed xqueue := by
  have hsender := h.sender
  rw [hs] at hsender
  cases hsender with
  | sent packet owned =>
    obtain ⟨b, hcell, hbytes, hown⟩ := packet.cellAt
    have hkept := elseKept_mem s.mem own b none
    have hother : ∀ o, .sender ≠ o → (∀ a, o ≠ .cell a) → ¬ BelongsTo s.mem own o b := by
      rintro o hne hcell ⟨-, hb | ⟨a, ha, hao⟩⟩
      · exact hcell _ (hb.symm.trans hown)
      · obtain rfl : xqueue = a := Owner.cell.inj (hown.symm.trans ha)
        exact hne (owned.symm.trans hao)
    have hxne : xqueue ≠ b := by
      rintro rfl
      rw [cellAt_eq_some.mp hcell] at hbytes
      cases hbytes
    refine ⟨b, by rw [hcell, Option.map_some], ?_⟩
    rw [SendQueue.release, if_neg (by rw [hbytes]; exact Option.some_ne_none _)]
    exact ⟨⟨fun q => hkept.producer (h.producers q) (hother _ nofun nofun),
      .freed ((hkept.mem xqueue hxne).trans (cellAt_eq_some.mp hcell)) owned,
      hkept.linked h.linked (hother _ nofun nofun), h.tail, h.nodup, h.history, nofun, h.safe⟩, rfl⟩

/-- So does freeing the cell. -/
theorem Ordered.freeCell (h : Ordered s own hand cells) (hs : s.sender = .freed xqueue) :
    Ordered (s.release xqueue .locking) own hand cells ∧
      (s.release xqueue .locking).sender = .locking := by
  have hsender := h.sender
  rw [hs] at hsender
  cases hsender with
  | freed here owned =>
    have hkept := elseKept_mem s.mem own xqueue none
    have hother : ∀ o, .sender ≠ o → ¬ BelongsTo s.mem own o xqueue := fun o hne =>
      not_belongsTo_of_own owned hne nofun
    rw [SendQueue.release, if_neg (by rw [here]; exact Option.some_ne_none _)]
    exact ⟨⟨fun q => hkept.producer (h.producers q) (hother _ nofun), .locking,
      hkept.linked h.linked (hother _ nofun), h.tail, h.nodup, h.history, nofun, h.safe⟩, rfl⟩

/-- The sender wakes up with nothing in its hand. -/
theorem Ordered.wake (h : Ordered s own hand cells) (hs : s.sender = .waiting) :
    Ordered { s with sender := .locking, signalled := false } own hand cells := by
  have hsender := h.sender
  rw [hs] at hsender
  cases hsender
  exact ⟨h.producers, .locking, h.linked, h.tail, h.nodup, h.history, nofun, h.safe⟩

/-- Every step keeps the order. -/
theorem Ordered.step [DecidableEq ι] (h : Ordered s own hand cells) {action : Action ι}
    (hstep : s.step action = some s') :
    ∃ own' hand' cells', Ordered s' own' hand' cells' := by
  cases action with
  | copy p data qdata =>
    simp only [SendQueue.step, Option.ite_none_right_eq_some, Option.some_inj] at hstep
    obtain ⟨⟨-, hnew⟩, rfl⟩ := hstep
    exact ⟨_, _, _, h.copy hnew⟩
  | fill p nqueue =>
    rw [SendQueue.step] at hstep
    split at hstep
    · rename_i data qdata hp
      simp only [Option.ite_none_right_eq_some, Option.some_inj] at hstep
      obtain ⟨hnew, rfl⟩ := hstep
      obtain ⟨own', h'⟩ := h.fill hp hnew
      exact ⟨own', _, _, h'⟩
    · cases hstep
  | enqueue p =>
    rw [SendQueue.step] at hstep
    split at hstep
    · rename_i data nqueue hp
      cases hstep
      exact ⟨_, _, _, h.enqueue hp⟩
    · cases hstep
  | dequeue =>
    simp only [SendQueue.step, Option.ite_none_right_eq_some, Option.some_inj] at hstep
    obtain ⟨hs, rfl⟩ := hstep
    cases cells with
    | nil => exact ⟨_, _, _, h.dequeue_nil hs⟩
    | cons e rest => exact ⟨_, _, _, (h.dequeue_cons hs).1⟩
  | wake =>
    simp only [SendQueue.step, Option.ite_none_right_eq_some, Option.some_inj] at hstep
    obtain ⟨hs, rfl⟩ := hstep
    exact ⟨_, _, _, h.wake hs⟩
  | send =>
    rw [SendQueue.step] at hstep
    split at hstep
    · rename_i xqueue hs
      cases hstep
      exact ⟨_, _, _, (h.send hs).1⟩
    · cases hstep
  | freeData =>
    rw [SendQueue.step] at hstep
    split at hstep
    · rename_i xqueue hs
      obtain ⟨b, hb, hfree, -⟩ := h.freeData hs
      rw [hb] at hstep
      cases hstep
      exact ⟨_, _, _, hfree⟩
    · cases hstep
  | freeCell =>
    rw [SendQueue.step] at hstep
    split at hstep
    · rename_i xqueue hs
      cases hstep
      exact ⟨_, _, _, (h.freeCell hs).1⟩
    · cases hstep

end Steps

end OldRadio.First
