import OldRadio.Library.BinaryHeap
import OldRadio.Library.Block
import OldRadio.Second.Packet
import OldRadio.Second.Vtime

/-!
# The event queue

`queue.c`: a binary heap in an array that doubles when it is full and halves
when less than a fifth is used. `QUEUE_HEAP_PARENT`, `QUEUE_HEAP_LEFT` and
`QUEUE_HEAP_RIGHT` are `heapParent`, `heapLeft` and `heapRight`. Every array
access goes through the allocated block, so a run that succeeds stayed inside
it. On a valid queue the loops compute the two siftings of a binary heap.
-/

namespace OldRadio.Second

open Library

/-- A `queue_event_t`. Pointers are indices, and `none` is `NULL`. -/
structure QueueEvent where
  /-- When the event is due. -/
  vtime : VTime
  /-- The node the event is for. -/
  node : Option Nat
  /-- The packet received; a timer event has none. -/
  packet : Option Nat
  /-- The argument of a timer event. -/
  extra : Option Nat
  deriving DecidableEq, Repr

/-- `QUEUE_EVENT_NULL`. -/
def queueEventNull : QueueEvent :=
  { vtime := vtimeInf, node := none, packet := none, extra := none }

/-- The key of the heap. -/
def QueueEvent.key (e : QueueEvent) : Nat := e.vtime.toNat

/-- `QUEUE_HEAP_SIZE_MIN`. -/
def queueHeapSizeMin : Nat := 1024

/-- `QUEUE_HEAP_SIZE_MAX`. -/
def queueHeapSizeMax : Nat := 1024 * 1024

/-- A `queue_t`. -/
structure Queue where
  /-- Number of cells the queue believes it has. -/
  size : Nat
  /-- Number of events pending. -/
  nevents : Nat
  /-- The allocated cells. -/
  events : Block QueueEvent

/-! ## The operations as the source computes them -/

/-- `_queue_resize`: double a full array, halve one that is less than a fifth full. -/
def queueResize (queue : Queue) : Except Abort Queue :=
  if queue.nevents = queue.size then
    if queue.size < queueHeapSizeMax then
      let size := min (queue.size * 2) queueHeapSizeMax
      .ok { queue with size, events := queue.events.realloc size }
    else .error .queueFull
  else if queue.nevents < queue.size / 5 ∧ queueHeapSizeMin < queue.size then
    let size := queue.size / 2
    .ok { queue with size, events := queue.events.realloc size }
  else .ok queue

/-- The cell that `_queue_heapify` picks among `i` and its children. -/
def heapifyPick (nevents : Nat) (events : Block QueueEvent) (i : Nat) : Except Abort Nat := do
  let l := heapLeft i
  let r := heapRight i
  let x ←
    if l < nevents then do
      let el ← access (events.read l)
      let ex ← access (events.read i)
      pure (if el.vtime < ex.vtime then l else i)
    else pure i
  if r < nevents then
    let er ← access (events.read r)
    let ex ← access (events.read x)
    return if er.vtime < ex.vtime then r else x
  else return x

/-- The loop of `_queue_heapify` from cell `i`. -/
def heapifyLoop (nevents : Nat) : Nat → Block QueueEvent → Nat → Except Abort (Block QueueEvent)
  | 0, events, _ => .ok events
  | fuel + 1, events, i => do
    let x ← heapifyPick nevents events i
    if x = i then return events
    else if nevents ≤ x then throw .queueIndex
    else
      let temp ← access (events.read x)
      let ei ← access (events.read i)
      let events ← access (events.write x ei)
      let events ← access (events.write i temp)
      heapifyLoop nevents fuel events x

/-- `_queue_heapify`. -/
def queueHeapify (queue : Queue) : Except Abort Queue := do
  let events ← heapifyLoop queue.nevents queue.nevents queue.events 0
  return { queue with events }

/-- `queue_new`. -/
def queueNew : Queue :=
  { size := queueHeapSizeMin, nevents := 0, events := .alloc queueHeapSizeMin }

/-- The loop of `queue_insert` with the hole at `i`, and the store behind it. -/
def insertLoop (event : QueueEvent) :
    Nat → Block QueueEvent → Nat → Except Abort (Block QueueEvent)
  | 0, events, i => access (events.write i event)
  | fuel + 1, events, i => do
    if i = 0 then access (events.write i event)
    else
      let above ← access (events.read (heapParent i))
      if event.vtime < above.vtime then
        let events ← access (events.write i above)
        insertLoop event fuel events (heapParent i)
      else access (events.write i event)

/-- `queue_insert`. -/
def queueInsert (queue : Queue) (event : QueueEvent) : Except Abort Queue := do
  let queue ← queueResize queue
  let i := queue.nevents
  let queue := { queue with nevents := queue.nevents + 1 }
  let events ← insertLoop event i queue.events i
  return { queue with events }

/-- `queue_top`. -/
def queueTop (queue : Queue) : Except Abort QueueEvent :=
  if queue.nevents = 0 then .ok queueEventNull else access (queue.events.read 0)

/-- `queue_pop`. -/
def queuePop (queue : Queue) : Except Abort (QueueEvent × Queue) := do
  if queue.nevents = 0 then return (queueEventNull, queue)
  let e ← access (queue.events.read 0)
  let last ← access (queue.events.read (queue.nevents - 1))
  let events ← access (queue.events.write 0 last)
  let queue := { queue with nevents := queue.nevents - 1, events }
  let queue ← queueHeapify queue
  let queue ← queueResize queue
  return (e, queue)

/-! ## Valid queues -/

/-- The event in a cell. -/
def Queue.event (queue : Queue) (i : Nat) : QueueEvent :=
  (queue.events.cells i).getD queueEventNull

/-- The events pending. -/
def Queue.pending (queue : Queue) : Multiset QueueEvent := contents queue.event queue.nevents

/-- What every operation relies on and leaves behind. -/
structure Queue.Valid (queue : Queue) : Prop where
  /-- The queue knows the size of its array. -/
  size_eq : queue.events.size = queue.size
  /-- Sizes are the smallest one doubled up to the largest. -/
  size_pow : ∃ k ≤ 10, queue.size = queueHeapSizeMin * 2 ^ k
  /-- The pending events are inside the array. -/
  nevents_le : queue.nevents ≤ queue.size
  /-- Every pending event was written. -/
  written : ∀ i < queue.nevents, queue.events.cells i = some (queue.event i)
  /-- The pending events form a heap. -/
  ordered : HeapOrdered QueueEvent.key queue.event queue.nevents

/-- A queue is valid when its cells hold a heap. -/
theorem Queue.Valid.of_cells (queue : Queue) {a : Nat → QueueEvent}
    (hsize : queue.events.size = queue.size)
    (hpow : ∃ k ≤ 10, queue.size = queueHeapSizeMin * 2 ^ k) (hle : queue.nevents ≤ queue.size)
    (hcells : ∀ i < queue.nevents, queue.events.cells i = some (a i))
    (hord : HeapOrdered QueueEvent.key a queue.nevents) :
    queue.Valid ∧ queue.pending = contents a queue.nevents := by
  have hevent : ∀ i < queue.nevents, a i = queue.event i := fun i hi => by
    rw [Queue.event, hcells i hi, Option.getD_some]
  refine ⟨⟨hsize, hpow, hle, fun i hi => ?_, hord.congr hevent⟩,
    (contents_congr hevent).symm⟩
  rw [hcells i hi, hevent i hi]

theorem queueNew_valid : queueNew.Valid where
  size_eq := rfl
  size_pow := ⟨0, by decide, rfl⟩
  nevents_le := by decide
  written i hi := absurd hi (Nat.not_lt_zero i)
  ordered i _ hi := absurd hi (Nat.not_lt_zero i)

theorem QueueEvent.key_lt_iff {e f : QueueEvent} : e.vtime < f.vtime ↔ e.key < f.key :=
  UInt64.lt_iff_toNat_lt

/-! ## The loops compute the siftings -/

/-- Storing into the hole completes the array. -/
private theorem store_hole {event : QueueEvent} {n i : Nat} {events : Block QueueEvent}
    {a : Nat → QueueEvent} (hn : n ≤ events.size) (hi : i < n) (hhole : a i = event)
    (hcells : ∀ j < n, j ≠ i → events.cells j = some (a j)) :
    ∃ events', access (events.write i event) = .ok events' ∧ events'.size = events.size ∧
      ∀ j < n, events'.cells j = some (a j) := by
  refine ⟨events.store i event, by rw [Block.write_eq_some event (by omega), access_some], rfl,
    fun j hj => ?_⟩
  rcases eq_or_ne j i with rfl | hne
  · rw [Block.store_cells_self, hhole]
  · rw [Block.store_cells_of_ne _ _ hne, hcells j hj hne]

/-- The hole of `queue_insert` moves as sifting up exchanges, and the event lands where it does. -/
theorem insertLoop_eq {event : QueueEvent} (n fuel : Nat) {i : Nat} {events : Block QueueEvent}
    {a : Nat → QueueEvent} (hn : n ≤ events.size) (hi : i < n) (hhole : a i = event)
    (hcells : ∀ j < n, j ≠ i → events.cells j = some (a j)) :
    ∃ events', insertLoop event fuel events i = .ok events' ∧ events'.size = events.size ∧
      ∀ j < n, events'.cells j = some (siftUp QueueEvent.key fuel a i j) := by
  induction fuel generalizing events a i with
  | zero => exact store_hole hn hi hhole hcells
  | succ fuel ih =>
    rw [insertLoop, siftUp]
    by_cases h0 : i = 0
    · simpa only [h0, if_true] using store_hole hn (h0 ▸ hi) (h0 ▸ hhole) (h0 ▸ hcells)
    · have hp := heapParent_lt (Nat.pos_of_ne_zero h0)
      have hread : events.read (heapParent i) = some (a (heapParent i)) :=
        Block.read_eq_some (by omega) (hcells _ (by omega) (by omega))
      rw [if_neg h0, if_neg h0, hread, access_some, ok_bind, hhole]
      by_cases hlt : event.vtime < (a (heapParent i)).vtime
      · have hkey := QueueEvent.key_lt_iff.mp hlt
        have hmoved : ∀ j < n, j ≠ heapParent i →
            (events.store i (a (heapParent i))).cells j =
              some (exchange a i (heapParent i) j) := by
          intro j hj hne
          rw [exchange_apply, if_neg hne]
          rcases eq_or_ne j i with rfl | hji
          · rw [Block.store_cells_self, if_pos rfl]
          · rw [Block.store_cells_of_ne _ _ hji, if_neg hji, hcells j hj hji]
        have hhole' : exchange a i (heapParent i) (heapParent i) = event := by
          rw [exchange_apply, if_neg (by omega), if_pos rfl, hhole]
        rw [if_pos hlt, if_pos hkey, Block.write_eq_some _ (by omega), access_some, ok_bind]
        exact ih hn (by omega) hhole' hmoved
      · have hkey := mt QueueEvent.key_lt_iff.mpr hlt
        rw [if_neg hlt, if_neg hkey]
        exact store_hole hn hi hhole hcells

/-- `_queue_heapify` picks the smallest of a cell and its children. -/
theorem heapifyPick_eq {n i : Nat} {events : Block QueueEvent} {a : Nat → QueueEvent}
    (hread : ∀ j < n, events.read j = some (a j)) :
    heapifyPick n events i = .ok (smallest QueueEvent.key n a i) := by
  have hl := lt_heapLeft i
  have hr := lt_heapRight i
  have hlr : heapRight i = heapLeft i + 1 := by
    unfold heapLeft heapRight
    omega
  unfold heapifyPick smallest
  by_cases hln : heapLeft i < n
  · rw [if_pos hln, hread _ hln, hread i (by omega)]
    by_cases hrn : heapRight i < n
    · simp only [access_some, ok_bind, pure_eq_ok, hln, hrn, if_true, true_and, hread _ hrn,
        QueueEvent.key_lt_iff]
      split
      · simp only [hread _ hln, access_some, ok_bind]
      · simp only [hread i (by omega), access_some, ok_bind]
    · simp only [access_some, ok_bind, pure_eq_ok, hln, hrn, if_false, true_and, false_and,
        QueueEvent.key_lt_iff]
  · have hrn : ¬ heapRight i < n := by omega
    simp only [ok_bind, pure_eq_ok, hln, hrn, if_false, false_and]

/-- The loop of `_queue_heapify` exchanges as sifting down does. -/
theorem heapifyLoop_eq {n : Nat} (fuel i : Nat) {events : Block QueueEvent} {a : Nat → QueueEvent}
    (hn : n ≤ events.size) (hcells : ∀ j < n, events.cells j = some (a j)) :
    ∃ events', heapifyLoop n fuel events i = .ok events' ∧ events'.size = events.size ∧
      ∀ j < n, events'.cells j = some (siftDown QueueEvent.key n fuel a i j) := by
  induction fuel generalizing events a i with
  | zero => exact ⟨events, rfl, rfl, hcells⟩
  | succ fuel ih =>
    have hread : ∀ j < n, events.read j = some (a j) := fun j hj =>
      Block.read_eq_some (by omega) (hcells j hj)
    rw [heapifyLoop, siftDown, heapifyPick_eq hread, ok_bind]
    rcases smallest_cases QueueEvent.key n a i with hx | ⟨-, hix, hxn⟩
    · rw [if_pos hx, if_pos hx]
      exact ⟨events, rfl, rfl, hcells⟩
    · generalize smallest QueueEvent.key n a i = x at hix hxn
      rw [if_neg (by omega), if_neg (by omega), if_neg (by omega), hread x hxn,
        hread i (by omega)]
      simp only [access_some, ok_bind]
      rw [Block.write_eq_some _ (by omega), access_some, ok_bind,
        Block.write_eq_some _ (by rw [Block.store_size]; omega), access_some, ok_bind]
      refine ih x hn fun j hj => ?_
      rw [exchange_apply]
      rcases eq_or_ne j i with rfl | hji
      · rw [Block.store_cells_self, if_pos rfl]
      · rw [Block.store_cells_of_ne _ _ hji, if_neg hji]
        rcases eq_or_ne j x with rfl | hjx
        · rw [Block.store_cells_self, if_pos rfl]
        · rw [Block.store_cells_of_ne _ _ hjx, if_neg hjx, hcells j hj]

/-! ## The operations on a valid queue -/

@[simp] theorem Queue.card_pending (queue : Queue) : queue.pending.card = queue.nevents :=
  card_contents ..

theorem Queue.mem_pending {queue : Queue} {e : QueueEvent} :
    e ∈ queue.pending ↔ ∃ i < queue.nevents, queue.event i = e := mem_contents

/-- The first event of a valid queue is due no later than any other. -/
theorem Queue.Valid.first_le {queue : Queue} (h : queue.Valid) {e : QueueEvent}
    (he : e ∈ queue.pending) : (queue.event 0).key ≤ e.key := by
  obtain ⟨i, hi, rfl⟩ := Queue.mem_pending.mp he
  exact h.ordered.root_le i hi

theorem Queue.Valid.size_le {queue : Queue} (h : queue.Valid) : queue.size ≤ queueHeapSizeMax := by
  obtain ⟨k, hk, hpow⟩ := h.size_pow
  rw [hpow, queueHeapSizeMax, queueHeapSizeMin]
  exact Nat.mul_le_mul_left _ (Nat.pow_le_pow_right (by decide) hk)

theorem Queue.Valid.read {queue : Queue} (h : queue.Valid) {i : Nat} (hi : i < queue.nevents) :
    queue.events.read i = some (queue.event i) := by
  have hsize := h.size_eq
  have hle := h.nevents_le
  exact Block.read_eq_some (by omega) (h.written i hi)

/-- Reallocating to another allowed size keeps every pending event. -/
private theorem Valid.realloc {queue : Queue} (h : queue.Valid) {size : Nat}
    (hpow : ∃ k ≤ 10, size = queueHeapSizeMin * 2 ^ k) (hn : queue.nevents < size) :
    let queue' := { queue with size, events := queue.events.realloc size }
    queue'.Valid ∧ queue'.pending = queue.pending := by
  have hsize := h.size_eq
  have hle := h.nevents_le
  refine Queue.Valid.of_cells _ rfl hpow (by simp only; omega) (fun i hi => ?_) h.ordered
  simp only at hi
  rw [Block.realloc_cells (by omega) (by omega)]
  exact h.written i hi

/-- `_queue_resize` keeps the pending events and leaves room for one more. -/
theorem queueResize_valid {queue : Queue} (h : queue.Valid)
    (hn : queue.nevents < queueHeapSizeMax) :
    ∃ queue', queueResize queue = .ok queue' ∧ queue'.Valid ∧
      queue'.pending = queue.pending ∧ queue'.nevents < queue'.size := by
  have hle := h.nevents_le
  obtain ⟨k, hk, hpow⟩ := h.size_pow
  unfold queueResize
  by_cases hfull : queue.nevents = queue.size
  · rw [if_pos hfull, if_pos (by omega)]
    have hlt : k < 10 := by
      by_contra hge
      obtain rfl : k = 10 := by omega
      rw [hfull, hpow] at hn
      exact absurd hn (by decide)
    have hdouble : min (queue.size * 2) queueHeapSizeMax = queueHeapSizeMin * 2 ^ (k + 1) := by
      have := Nat.pow_le_pow_right (show 0 < 2 by decide) (show k + 1 ≤ 10 by omega)
      rw [hpow, queueHeapSizeMax, queueHeapSizeMin, Nat.pow_succ]
      rw [Nat.pow_succ] at this
      omega
    have hmin : queue.nevents < min (queue.size * 2) queueHeapSizeMax := by
      have : 0 < queue.size := by
        rw [hpow]
        exact Nat.mul_pos (by decide) (Nat.pow_pos (by decide))
      omega
    obtain ⟨hvalid, hpending⟩ := Valid.realloc h ⟨k + 1, hlt, hdouble⟩ hmin
    exact ⟨_, rfl, hvalid, hpending, hmin⟩
  · rw [if_neg hfull]
    by_cases hfew : queue.nevents < queue.size / 5 ∧ queueHeapSizeMin < queue.size
    · rw [if_pos hfew]
      have hhalf : queue.size / 2 = queueHeapSizeMin * 2 ^ (k - 1) := by
        cases k with
        | zero => omega
        | succ k =>
          rw [hpow, Nat.add_sub_cancel, Nat.pow_succ, ← Nat.mul_assoc]
          exact Nat.mul_div_cancel _ (by decide)
      have hless : queue.nevents < queue.size / 2 := by omega
      obtain ⟨hvalid, hpending⟩ := Valid.realloc h ⟨k - 1, by omega, hhalf⟩ hless
      exact ⟨_, rfl, hvalid, hpending, hless⟩
    · rw [if_neg hfew]
      exact ⟨queue, rfl, h, rfl, by omega⟩

/-- `_queue_resize` of a queue at its largest size fails its assertion when the queue is full. -/
theorem queueResize_full {queue : Queue} (h : queue.Valid)
    (hn : queueHeapSizeMax ≤ queue.nevents) : queueResize queue = .error .queueFull := by
  have hle := h.nevents_le
  have hmax := h.size_le
  rw [queueResize, if_pos (by omega), if_neg (by omega)]

/-- `queue_insert` adds the event. -/
theorem queueInsert_valid {queue : Queue} (h : queue.Valid) (event : QueueEvent)
    (hn : queue.nevents < queueHeapSizeMax) :
    ∃ queue', queueInsert queue event = .ok queue' ∧ queue'.Valid ∧
      queue'.pending = event ::ₘ queue.pending := by
  obtain ⟨room, hresize, hroom, hsame, hlt⟩ := queueResize_valid h hn
  have hsize := hroom.size_eq
  let a := Function.update room.event room.nevents event
  have hold : ∀ j < room.nevents, a j = room.event j := fun j hj =>
    Function.update_of_ne (by omega) ..
  have hlast : a room.nevents = event := Function.update_self ..
  have hup : UpOrdered QueueEvent.key a (room.nevents + 1) room.nevents := by
    constructor
    · intro j hpos hj hne
      have hp := heapParent_lt hpos
      rw [hold j (by omega), hold _ (by omega)]
      exact hroom.ordered j hpos (by omega)
    · intro _ j hpos hj hp
      have := heapParent_lt hpos
      omega
  obtain ⟨events, hrun, hevents, hcells⟩ := insertLoop_eq (room.nevents + 1) room.nevents
    (show room.nevents + 1 ≤ room.events.size by omega) (Nat.lt_succ_self _) hlast
    fun j hj hne => by rw [hold j (by omega), hroom.written j (by omega)]
  have hord := heapOrdered_siftUp hup (Nat.lt_succ_self _) le_rfl
  obtain ⟨hvalid, hpending⟩ := Queue.Valid.of_cells
    { room with nevents := room.nevents + 1, events } (hevents.trans hsize)
    hroom.size_pow hlt hcells hord
  refine ⟨_, ?_, hvalid, ?_⟩
  · rw [queueInsert, hresize, ok_bind]
    dsimp only
    rw [hrun, ok_bind, pure_eq_ok]
  · rw [hpending, contents_siftUp (Nat.lt_succ_self _), contents_succ, hlast, ← hsame,
      contents_congr hold, Queue.pending]

/-- `queue_insert` into a full queue fails the assertion of `_queue_resize`. -/
theorem queueInsert_full {queue : Queue} (h : queue.Valid) (event : QueueEvent)
    (hn : queueHeapSizeMax ≤ queue.nevents) : queueInsert queue event = .error .queueFull := by
  rw [queueInsert, queueResize_full h hn, error_bind]

/-- `queue_top` of a queue with pending events is the first of them. -/
theorem queueTop_valid {queue : Queue} (h : queue.Valid) (hpos : queue.nevents ≠ 0) :
    queueTop queue = .ok (queue.event 0) ∧ queue.event 0 ∈ queue.pending := by
  rw [queueTop, if_neg hpos, h.read (by omega), access_some]
  exact ⟨rfl, Queue.mem_pending.mpr ⟨0, by omega, rfl⟩⟩

/-- `queue_pop` of a queue with pending events removes the first of them. -/
theorem queuePop_valid {queue : Queue} (h : queue.Valid) (hpos : queue.nevents ≠ 0) :
    ∃ queue', queuePop queue = .ok (queue.event 0, queue') ∧ queue'.Valid ∧
      queue.pending = queue.event 0 ::ₘ queue'.pending := by
  obtain ⟨m, hm⟩ := Nat.exists_eq_succ_of_ne_zero hpos
  have hsize := h.size_eq
  have hle := h.nevents_le
  let a := exchange queue.event 0 m
  have hcells : ∀ j < m, (queue.events.store 0 (queue.event m)).cells j = some (a j) := by
    intro j hj
    rw [show a j = _ from exchange_apply ..]
    rcases eq_or_ne j 0 with rfl | hne
    · rw [Block.store_cells_self, if_pos rfl]
    · rw [Block.store_cells_of_ne _ _ hne, if_neg hne, if_neg (by omega), h.written j (by omega)]
  have hcontents : queue.pending = queue.event 0 ::ₘ contents a m := by
    have hlast : a m = queue.event 0 := by
      rw [show a m = _ from exchange_apply ..]
      split
      · rename_i h0
        rw [h0]
      · rw [if_pos rfl]
    rw [Queue.pending, hm, ← contents_exchange (i := 0) (j := m) (by omega) (by omega),
      contents_succ, ← hlast]
  have hdown : DownOrdered QueueEvent.key a m 0 := by
    refine ⟨fun j hj hjm hp => ?_, fun h0 => absurd h0 (Nat.lt_irrefl 0)⟩
    have := heapParent_lt hj
    rw [show a j = _ from exchange_apply .., show a (heapParent j) = _ from exchange_apply ..,
      if_neg hp, if_neg (by omega), if_neg (by omega), if_neg (by omega)]
    exact h.ordered j hj (by omega)
  obtain ⟨events, hrun, hevents, hsifted⟩ := heapifyLoop_eq m 0
    (by rw [Block.store_size]; omega) hcells
  obtain ⟨hvalid, hpending⟩ := Queue.Valid.of_cells
    { queue with nevents := m, events } (hevents.trans hsize) h.size_pow
    (by simp only; omega) hsifted (heapOrdered_siftDown hdown (by omega))
  have hmax := h.size_le
  obtain ⟨queue', hresize, hvalid', hsame, -⟩ := queueResize_valid hvalid (by simp only; omega)
  refine ⟨queue', ?_, hvalid', ?_⟩
  · rw [queuePop, if_neg hpos, h.read (by omega)]
    simp only [access_some, ok_bind, hm, Nat.succ_eq_add_one, Nat.add_sub_cancel,
      h.read (show m < queue.nevents by omega)]
    rw [Block.write_eq_some _ (by omega), access_some, ok_bind, queueHeapify, hrun]
    simp only [ok_bind, pure_eq_ok]
    rw [hresize, ok_bind]
  · rw [hcontents, hsame, hpending]
    rcases Nat.eq_zero_or_pos m with rfl | hmpos
    · rfl
    · rw [contents_siftDown hmpos]

end OldRadio.Second
