import Mathlib.Data.Set.Finite.Basic
import OldRadio.First.SendQueueRuns

/-!
# The memory of the send queue

What is allocated is what somebody is about to use: the copy or the cell of a
thread that is in `queue_send_packet`, the cells of the queue, the one that the
sender has taken, and the copies of all these. So nothing is lost, and a queue
that has been sent leaves nothing behind.
-/

namespace OldRadio.First

open Library

namespace SendQueue

variable {ι : Type}

/-- Somebody is about to use a cell, and its copy of a packet. -/
def CellInUse (s : SendQueue ι) (cells : List (Addr × List UInt8)) (x : Addr) : Prop :=
  (∃ p data, s.producers p = .filled data x) ∨ x ∈ cells.map Prod.fst ∨ s.sender = .sending x ∨
    s.sender = .sent x

/-- Somebody is about to use a piece of memory. -/
def InUse (s : SendQueue ι) (cells : List (Addr × List UInt8)) (a : Addr) : Prop :=
  (∃ p data, s.producers p = .copied data a) ∨ s.sender = .freed a ∨ s.CellInUse cells a ∨
    ∃ x cell, s.CellInUse cells x ∧ cellAt s.mem x = some cell ∧ cell.data = a

/-- All that is allocated is in use. -/
def NoLeak (s : SendQueue ι) (cells : List (Addr × List UInt8)) : Prop :=
  ∀ a, s.mem a ≠ none → s.InUse cells a

theorem noLeak_queueStart : (queueStart ι).NoLeak [] := fun _ h => absurd rfl h

end SendQueue

section Steps

variable {ι : Type} {s t : SendQueue ι} {own : Addr → Owner ι} {hand : List (List UInt8)}
  {cells cells' : List (Addr × List UInt8)} {p : ι} {data : List UInt8}
  {qdata nqueue xqueue a : Addr}

theorem mem_of_cellAt {mem : Memory} {x : Addr} {cell : QueueT} (h : cellAt mem x = some cell) :
    mem x ≠ none := by
  rw [cellAt_eq_some.mp h]
  exact Option.some_ne_none _

/-- What is used again by the same or by somebody else, if the cells keep their copies. -/
theorem SendQueue.InUse.imp (h : s.InUse cells a)
    (hcopied : ∀ p data, s.producers p = .copied data a → t.InUse cells' a)
    (hfreed : s.sender = .freed a → t.sender = .freed a)
    (hcell : ∀ x, s.CellInUse cells x → t.CellInUse cells' x)
    (hmem : ∀ x cell, s.CellInUse cells x → cellAt s.mem x = some cell →
      ∃ cell', cellAt t.mem x = some cell' ∧ cell'.data = cell.data) : t.InUse cells' a := by
  rcases h with ⟨p, data, hp⟩ | hs | hx | ⟨x, cell, hx, hat, rfl⟩
  · exact hcopied p data hp
  · exact Or.inr (Or.inl (hfreed hs))
  · exact Or.inr (Or.inr (Or.inl (hcell a hx)))
  · obtain ⟨cell', hat', hdata⟩ := hmem x cell hx hat
    exact Or.inr (Or.inr (Or.inr ⟨x, cell', hcell x hx, hat', hdata⟩))

theorem ne_none_of_update {mem : Memory} {x y : Addr} {block : Option Block} (hne : x ≠ y)
    (h : Function.update mem y block x ≠ none) : mem x ≠ none := by
  rwa [Function.update_of_ne hne] at h

theorem cellAt_update {mem : Memory} {x y : Addr} (block : Option Block) (hne : x ≠ y) :
    cellAt (Function.update mem y block) x = cellAt mem x := by
  rw [cellAt, cellAt, Function.update_of_ne hne]

/-- New memory is at no address of a cell. -/
theorem cellAt_update_of_none {mem : Memory} {x y : Addr} {cell : QueueT} (block : Option Block)
    (hy : mem y = none) (hx : cellAt mem x = some cell) :
    cellAt (Function.update mem y block) x = some cell := by
  have hne : x ≠ y := by
    rintro rfl
    exact mem_of_cellAt hx hy
  rw [cellAt_update block hne, hx]

variable [DecidableEq ι]

theorem noLeak_copy (h : s.NoLeak cells) (hp : s.producers p = .idle) (hnew : s.mem qdata = none) :
    SendQueue.NoLeak { s with
      mem := Function.update s.mem qdata (some (.bytes data))
      producers := Function.update s.producers p (.copied data qdata) } cells := by
  have hne : ∀ q, s.producers q ≠ .idle → q ≠ p := by
    rintro q hq rfl
    exact hq hp
  intro a ha
  rcases eq_or_ne a qdata with rfl | haq
  · exact Or.inl ⟨p, data, Function.update_self ..⟩
  · refine (h a (ne_none_of_update haq ha)).imp (fun q d hq => Or.inl ⟨q, d, ?_⟩) id ?_
      fun x cell _ hat => ⟨cell, cellAt_update_of_none _ hnew hat, rfl⟩
    · exact (Function.update_of_ne (hne q (by simp [hq])) ..).trans hq
    · rintro x (⟨q, d, hq⟩ | hx)
      · exact Or.inl ⟨q, d, (Function.update_of_ne (hne q (by simp [hq])) ..).trans hq⟩
      · exact Or.inr hx

theorem noLeak_fill (h : s.NoLeak cells) (hp : s.producers p = .copied data qdata)
    (hnew : s.mem nqueue = none) :
    SendQueue.NoLeak { s with
      mem := Function.update s.mem nqueue
        (some (.queue { data := qdata, length := data.length, next := none }))
      producers := Function.update s.producers p (.filled data nqueue) } cells := by
  have hself : SendQueue.CellInUse { s with
      mem := Function.update s.mem nqueue
        (some (.queue { data := qdata, length := data.length, next := none }))
      producers := Function.update s.producers p (.filled data nqueue) } cells nqueue :=
    Or.inl ⟨p, data, Function.update_self ..⟩
  intro a ha
  rcases eq_or_ne a nqueue with rfl | han
  · exact Or.inr (Or.inr (Or.inl hself))
  · refine (h a (ne_none_of_update han ha)).imp (fun q d hq => ?_) id ?_ fun x cell _ hat =>
      ⟨cell, cellAt_update_of_none _ hnew hat, rfl⟩
    · rcases eq_or_ne q p with rfl | hne
      · -- the copy is now the cell's
        obtain ⟨-, rfl⟩ := Producer.copied.inj (hp.symm.trans hq)
        have hcell := cellAt_eq_some.mpr (Function.update_self nqueue
          (some (.queue { data := qdata, length := data.length, next := none })) s.mem)
        exact Or.inr (Or.inr (Or.inr ⟨nqueue, _, hself, hcell, rfl⟩))
      · exact Or.inl ⟨q, d, (Function.update_of_ne hne ..).trans hq⟩
    · rintro x (⟨q, d, hq⟩ | hx)
      · have hne : q ≠ p := by
          rintro rfl
          cases hp.symm.trans hq
        exact Or.inl ⟨q, d, (Function.update_of_ne hne ..).trans hq⟩
      · exact Or.inr hx

omit [DecidableEq ι] in
/-- Linking a cell changes where its predecessor leads, and no copy. -/
theorem append_keeps (s : SendQueue ι) (nqueue : Addr) :
    (s.append nqueue).sender = s.sender ∧ (s.append nqueue).producers = s.producers ∧
      (∀ a, (s.append nqueue).mem a ≠ none → s.mem a ≠ none) ∧
      ∀ x cell, cellAt s.mem x = some cell →
        ∃ cell', cellAt (s.append nqueue).mem x = some cell' ∧ cell'.data = cell.data := by
  unfold SendQueue.append
  split
  case h_1 => exact ⟨rfl, rfl, fun _ => id, fun x cell hx => ⟨cell, hx, rfl⟩⟩
  case h_2 tail _ =>
    split
    case h_1 last hlast =>
      refine ⟨rfl, rfl, fun a ha => ?_, fun x cell hx => ?_⟩
      · rcases eq_or_ne a tail with rfl | hne
        · exact mem_of_cellAt hlast
        · exact ne_none_of_update hne ha
      · rcases eq_or_ne x tail with rfl | hne
        · obtain rfl := Option.some.inj (hlast.symm.trans hx)
          exact ⟨_, cellAt_eq_some.mpr (Function.update_self ..), rfl⟩
        · exact ⟨cell, (cellAt_update _ hne).trans hx, rfl⟩
    case h_2 => exact ⟨rfl, rfl, fun _ => id, fun x cell hx => ⟨cell, hx, rfl⟩⟩

theorem noLeak_enqueue (h : s.NoLeak cells) (hp : s.producers p = .filled data nqueue) :
    SendQueue.NoLeak { s.append nqueue with
      producers := Function.update s.producers p .idle
      enqueued := s.enqueued ++ [data] } (cells ++ [(nqueue, data)]) := by
  obtain ⟨hsender, -, hmem, hcells⟩ := append_keeps s nqueue
  intro a ha
  refine (h a (hmem a ha)).imp (fun q d hq => Or.inl ⟨q, d, ?_⟩) (fun hs => hsender.trans hs) ?_
    fun x cell _ hat => hcells x cell hat
  · have hne : q ≠ p := by
      rintro rfl
      cases hp.symm.trans hq
    exact (Function.update_of_ne hne ..).trans hq
  · rintro x (⟨q, d, hq⟩ | hx | hs | hs)
    · rcases eq_or_ne q p with rfl | hne
      · obtain ⟨-, rfl⟩ := Producer.filled.inj (hp.symm.trans hq)
        exact Or.inr (Or.inl (by simp))
      · exact Or.inl ⟨q, d, (Function.update_of_ne hne ..).trans hq⟩
    · refine Or.inr (Or.inl ?_)
      rw [List.map_append]
      exact List.mem_append_left _ hx
    · exact Or.inr (Or.inr (Or.inl (hsender.trans hs)))
    · exact Or.inr (Or.inr (Or.inr (hsender.trans hs)))

omit [DecidableEq ι] in
/-- Taking a cell, or none, changes no memory and no other thread. -/
theorem pop_keeps (s : SendQueue ι) : s.pop.mem = s.mem ∧ s.pop.producers = s.producers := by
  unfold SendQueue.pop
  split
  case h_1 => exact ⟨rfl, rfl⟩
  case h_2 =>
    split
    · exact ⟨rfl, rfl⟩
    · exact ⟨rfl, rfl⟩

omit [DecidableEq ι] in
/-- The sender goes on, and what it had or takes it has then. -/
theorem noLeak_of_sender (h : s.NoLeak cells) (hmem : t.mem = s.mem)
    (hproducers : t.producers = s.producers) (hfreed : ∀ a, s.sender ≠ .freed a)
    (hcells : ∀ x, x ∈ cells.map Prod.fst ∨ s.sender = .sending x ∨ s.sender = .sent x →
      x ∈ cells'.map Prod.fst ∨ t.sender = .sending x ∨ t.sender = .sent x) : t.NoLeak cells' := by
  intro a ha
  rw [hmem] at ha
  refine (h a ha).imp (fun q d hq => Or.inl ⟨q, d, ?_⟩) (fun hs => absurd hs (hfreed a)) ?_
    fun x cell _ hat => ⟨cell, by rw [hmem]; exact hat, rfl⟩
  · rw [hproducers]
    exact hq
  · rintro x (⟨q, d, hq⟩ | hx)
    · exact Or.inl ⟨q, d, by rw [hproducers]; exact hq⟩
    · exact Or.inr (hcells x hx)

omit [DecidableEq ι] in
/-- The copy of the packet that is sent is freed, and the cell is what the sender still has. -/
theorem noLeak_freeData (h : s.NoLeak cells) (hs : s.sender = .sent xqueue) {cell : QueueT}
    (hat : cellAt s.mem xqueue = some cell)
    (hbytes : ∀ y cell', cellAt s.mem y = some cell' → y ≠ cell.data) :
    SendQueue.NoLeak { s with
      mem := Function.update s.mem cell.data none
      sender := .freed xqueue } cells := by
  have hcell : ∀ x, s.CellInUse cells x → x ≠ xqueue → SendQueue.CellInUse { s with
      mem := Function.update s.mem cell.data none
      sender := .freed xqueue } cells x := by
    rintro x (hq | hx | hsend | hsent) hne
    · exact Or.inl hq
    · exact Or.inr (Or.inl hx)
    · cases hs.symm.trans hsend
    · exact absurd (Sender.sent.inj (hs.symm.trans hsent)).symm hne
  intro a ha
  have hne : a ≠ cell.data := by
    rintro rfl
    exact ha (Function.update_self ..)
  rcases h a (ne_none_of_update hne ha) with hq | hfreed | hx | ⟨x, cell', hx, hat', rfl⟩
  · exact Or.inl hq
  · cases hs.symm.trans hfreed
  · rcases eq_or_ne a xqueue with rfl | hax
    · exact Or.inr (Or.inl rfl)
    · exact Or.inr (Or.inr (Or.inl (hcell a hx hax)))
  · have hxq : x ≠ xqueue := by
      rintro rfl
      obtain rfl := Option.some.inj (hat.symm.trans hat')
      exact hne rfl
    refine Or.inr (Or.inr (Or.inr ⟨x, cell', hcell x hx hxq, ?_, rfl⟩))
    exact (cellAt_update none (hbytes x cell' hat')).trans hat'

omit [DecidableEq ι] in
/-- The cell of the packet that is sent is freed, when its copy is. -/
theorem noLeak_freeCell (h : s.NoLeak cells) (hs : s.sender = .freed xqueue)
    (hother : ¬ s.CellInUse cells xqueue) :
    SendQueue.NoLeak { s with
      mem := Function.update s.mem xqueue none
      sender := .locking } cells := by
  have hcell : ∀ x, s.CellInUse cells x → SendQueue.CellInUse { s with
      mem := Function.update s.mem xqueue none
      sender := .locking } cells x := by
    rintro x (hq | hx | hsend | hsent)
    · exact Or.inl hq
    · exact Or.inr (Or.inl hx)
    · cases hs.symm.trans hsend
    · cases hs.symm.trans hsent
  intro a ha
  have hne : a ≠ xqueue := by
    rintro rfl
    exact ha (Function.update_self ..)
  rcases h a (ne_none_of_update hne ha) with hq | hfreed | hx | ⟨x, cell, hx, hat, rfl⟩
  · exact Or.inl hq
  · exact absurd (Sender.freed.inj (hs.symm.trans hfreed)).symm hne
  · exact Or.inr (Or.inr (Or.inl (hcell a hx)))
  · have hxq : x ≠ xqueue := by
      rintro rfl
      exact hother hx
    exact Or.inr (Or.inr (Or.inr ⟨x, cell, hcell x hx, (cellAt_update none hxq).trans hat, rfl⟩))

omit [DecidableEq ι] in
/-- Sending a packet changes no memory and no other thread. -/
theorem transmit_keeps (s : SendQueue ι) (xqueue : Addr) :
    (s.transmit xqueue).mem = s.mem ∧ (s.transmit xqueue).producers = s.producers := by
  unfold SendQueue.transmit
  split
  · exact ⟨rfl, rfl⟩
  · exact ⟨rfl, rfl⟩

end Steps

/-! ## In every run -/

section Runs

variable {ι : Type} {s t : SendQueue ι} {own : Addr → Owner ι} {hand : List (List UInt8)}
  {cells : List (Addr × List UInt8)}

/-- Whom a cell in use belongs to. -/
theorem Ordered.own_of_cellInUse (h : Ordered s own hand cells) {x : Addr}
    (hx : s.CellInUse cells x) :
    (∃ data next, Packet s.mem own x data next) ∧
      ((∃ p, own x = .producer p) ∨ own x = .queue ∨
        own x = .sender ∧ ∀ a, s.sender ≠ .freed a) := by
  rcases hx with ⟨p, data, hp⟩ | hx | hs | hs
  · obtain ⟨hpacket, howned⟩ := h.filled hp
    exact ⟨⟨data, none, hpacket⟩, Or.inl ⟨p, howned⟩⟩
  · obtain ⟨e, he, rfl⟩ := List.mem_map.mp hx
    obtain ⟨next, hpacket, howned⟩ := h.linked.cell_of_mem he
    exact ⟨⟨e.2, next, hpacket⟩, Or.inr (Or.inl howned)⟩
  · have hsender := h.sender
    rw [hs] at hsender
    cases hsender with
    | sending packet owned =>
      exact ⟨⟨_, _, packet⟩, Or.inr (Or.inr ⟨owned, fun a ha => by cases hs.symm.trans ha⟩)⟩
  · have hsender := h.sender
    rw [hs] at hsender
    cases hsender with
    | sent packet owned =>
      exact ⟨⟨_, _, packet⟩, Or.inr (Or.inr ⟨owned, fun a ha => by cases hs.symm.trans ha⟩)⟩

/-- What is in use is allocated. -/
theorem Ordered.ne_none_of_inUse (h : Ordered s own hand cells) {a : Addr} (ha : s.InUse cells a) :
    s.mem a ≠ none := by
  rcases ha with ⟨p, data, hp⟩ | hs | hx | ⟨x, cell, hx, hat, rfl⟩
  · have hhas := h.producers p
    rw [hp] at hhas
    cases hhas with
    | copied bytes owned =>
      rw [bytes]
      exact Option.some_ne_none _
  · have hsender := h.sender
    rw [hs] at hsender
    cases hsender with
    | freed here owned =>
      rw [here]
      exact Option.some_ne_none _
  · obtain ⟨⟨data, next, hpacket⟩, -⟩ := h.own_of_cellInUse hx
    exact hpacket.ne_none
  · obtain ⟨⟨data, next, hpacket⟩, -⟩ := h.own_of_cellInUse hx
    obtain ⟨b, hcell, hbytes, -⟩ := hpacket.cellAt
    obtain rfl := Option.some.inj (hat.symm.trans hcell)
    rw [hbytes]
    exact Option.some_ne_none _

/-- When all is sent and every thread is out of its call, nothing is allocated. -/
theorem Ordered.mem_eq_none (h : Ordered s own hand cells) (hleak : s.NoLeak cells)
    (hidle : ∀ p, s.producers p = .idle) (hhead : s.head = none)
    (hsender : s.sender = .locking ∨ s.sender = .waiting) (a : Addr) : s.mem a = none := by
  obtain rfl := h.linked.eq_none_iff.mp hhead
  have hsender : ∀ x, s.sender ≠ .sending x ∧ s.sender ≠ .sent x ∧ s.sender ≠ .freed x := by
    intro x
    rcases hsender with hs | hs
    · simp [hs]
    · simp [hs]
  have hcell : ∀ x, ¬ s.CellInUse [] x := by
    rintro x (⟨p, data, hp⟩ | hx | hs | hs)
    · cases (hidle p).symm.trans hp
    · cases hx
    · exact (hsender x).1 hs
    · exact (hsender x).2.1 hs
  by_contra hne
  rcases hleak a hne with ⟨p, data, hp⟩ | hs | hx | ⟨x, -, hx, -⟩
  · cases (hidle p).symm.trans hp
  · exact (hsender a).2.2 hs
  · exact hcell a hx
  · exact hcell x hx

variable [DecidableEq ι]

/-- Every step keeps the order, and leaves nothing allocated that nobody uses. -/
theorem Ordered.step_noLeak (h : Ordered s own hand cells) (hleak : s.NoLeak cells)
    {action : Action ι} (hstep : s.step action = some t) :
    ∃ own' hand' cells', Ordered t own' hand' cells' ∧ t.NoLeak cells' := by
  cases action with
  | copy p data qdata =>
    simp only [SendQueue.step, Option.ite_none_right_eq_some, Option.some_inj] at hstep
    obtain ⟨⟨hp, hnew⟩, rfl⟩ := hstep
    exact ⟨_, _, _, h.copy hnew, noLeak_copy hleak hp hnew⟩
  | fill p nqueue =>
    rw [SendQueue.step] at hstep
    split at hstep
    case h_1 data qdata hp =>
      simp only [Option.ite_none_right_eq_some, Option.some_inj] at hstep
      obtain ⟨hnew, rfl⟩ := hstep
      obtain ⟨own', h'⟩ := h.fill hp hnew
      exact ⟨own', _, _, h', noLeak_fill hleak hp hnew⟩
    case h_2 => cases hstep
  | enqueue p =>
    rw [SendQueue.step] at hstep
    split at hstep
    case h_1 data nqueue hp =>
      cases hstep
      exact ⟨_, _, _, h.enqueue hp, noLeak_enqueue hleak hp⟩
    case h_2 => cases hstep
  | dequeue =>
    simp only [SendQueue.step, Option.ite_none_right_eq_some, Option.some_inj] at hstep
    obtain ⟨hs, rfl⟩ := hstep
    obtain ⟨hmem, hproducers⟩ := pop_keeps s
    have hfreed : ∀ a, s.sender ≠ .freed a := fun a ha => by cases hs.symm.trans ha
    cases cells with
    | nil =>
      refine ⟨_, _, _, h.dequeue_nil hs, noLeak_of_sender hleak hmem hproducers hfreed ?_⟩
      rintro x (hx | hx | hx)
      · cases hx
      · cases hs.symm.trans hx
      · cases hs.symm.trans hx
    | cons e rest =>
      obtain ⟨h', hs'⟩ := h.dequeue_cons hs
      refine ⟨_, _, _, h', noLeak_of_sender hleak hmem hproducers hfreed ?_⟩
      rintro x (hx | hx | hx)
      · rcases List.mem_cons.mp hx with rfl | hx
        · exact Or.inr (Or.inl hs')
        · exact Or.inl hx
      · cases hs.symm.trans hx
      · cases hs.symm.trans hx
  | wake =>
    simp only [SendQueue.step, Option.ite_none_right_eq_some, Option.some_inj] at hstep
    obtain ⟨hs, rfl⟩ := hstep
    refine ⟨_, _, _, h.wake hs, noLeak_of_sender hleak rfl rfl ?_ ?_⟩
    · exact fun a ha => by cases hs.symm.trans ha
    · rintro x (hx | hx | hx)
      · exact Or.inl hx
      · cases hs.symm.trans hx
      · cases hs.symm.trans hx
  | send =>
    rw [SendQueue.step] at hstep
    split at hstep
    case h_1 xqueue hs =>
      cases hstep
      obtain ⟨h', hs'⟩ := h.send hs
      obtain ⟨hmem, hproducers⟩ := transmit_keeps s xqueue
      refine ⟨_, _, _, h', noLeak_of_sender hleak hmem hproducers ?_ ?_⟩
      · exact fun a ha => by cases hs.symm.trans ha
      · rintro x (hx | hx | hx)
        · exact Or.inl hx
        · obtain rfl := Sender.sending.inj (hs.symm.trans hx)
          exact Or.inr (Or.inr hs')
        · cases hs.symm.trans hx
    case h_2 => cases hstep
  | freeData =>
    rw [SendQueue.step] at hstep
    split at hstep
    case h_1 xqueue hs =>
      obtain ⟨b, hb, h', -⟩ := h.freeData hs
      obtain ⟨cell, hat, rfl⟩ := Option.map_eq_some_iff.mp hb
      rw [hb] at hstep
      cases hstep
      have hpacket := (h.own_of_cellInUse (Or.inr (Or.inr (Or.inr hs)))).1
      obtain ⟨data, next, hpacket⟩ := hpacket
      obtain ⟨b, hcell, hbytes, -⟩ := hpacket.cellAt
      obtain rfl := Option.some.inj (hat.symm.trans hcell)
      have hne : s.mem b ≠ none := by
        rw [hbytes]
        exact Option.some_ne_none _
      refine ⟨_, _, _, h', ?_⟩
      rw [SendQueue.release, if_neg hne]
      refine noLeak_freeData hleak hs hat fun y cell' hy => ?_
      rintro rfl
      rw [cellAt_eq_some.mp hy] at hbytes
      cases hbytes
    case h_2 => cases hstep
  | freeCell =>
    rw [SendQueue.step] at hstep
    split at hstep
    case h_1 xqueue hs =>
      cases hstep
      have hne := h.ne_none_of_inUse (Or.inr (Or.inl hs))
      refine ⟨_, _, _, (h.freeCell hs).1, ?_⟩
      rw [SendQueue.release, if_neg hne]
      refine noLeak_freeCell hleak hs fun hx => ?_
      have hsender := h.sender
      rw [hs] at hsender
      cases hsender with
      | freed here owned =>
        rcases (h.own_of_cellInUse hx).2 with ⟨p, hp⟩ | hq | ⟨-, hnone⟩
        · cases owned.symm.trans hp
        · cases owned.symm.trans hq
        · exact hnone xqueue hs
    case h_2 => cases hstep

theorem noLeak_of_run {actions : List (Action ι)}
    (h : Run SendQueue.Step (queueStart ι) actions s) :
    ∃ own hand cells, Ordered s own hand cells ∧ s.NoLeak cells := by
  refine h.keeps (I := fun s => ∃ own hand cells, Ordered s own hand cells ∧ s.NoLeak cells) ?_
    ⟨fun _ => .queue, [], [], ordered_queueStart _, SendQueue.noLeak_queueStart⟩
  rintro s action t ⟨own, hand, cells, hordered, hleak⟩ hstep
  exact hordered.step_noLeak hleak hstep

/-- A step allocates at most one piece of memory. -/
theorem SendQueue.exists_new_of_step {action : Action ι} (hstep : s.step action = some t) :
    ∃ x, ∀ a, a ≠ x → t.mem a ≠ none → s.mem a ≠ none := by
  have hrelease : ∀ b sender, ∃ x, ∀ a, a ≠ x → (s.release b sender).mem a ≠ none →
      s.mem a ≠ none := by
    intro b sender
    refine ⟨b, fun a hne ha => ?_⟩
    rw [SendQueue.release] at ha
    split_ifs at ha with hb
    · exact ha
    · exact ne_none_of_update hne ha
  cases action with
  | copy p data qdata =>
    simp only [SendQueue.step, Option.ite_none_right_eq_some, Option.some_inj] at hstep
    obtain ⟨-, rfl⟩ := hstep
    exact ⟨qdata, fun a hne ha => ne_none_of_update hne ha⟩
  | fill p nqueue =>
    rw [SendQueue.step] at hstep
    split at hstep
    case h_1 =>
      simp only [Option.ite_none_right_eq_some, Option.some_inj] at hstep
      obtain ⟨-, rfl⟩ := hstep
      exact ⟨nqueue, fun a hne ha => ne_none_of_update hne ha⟩
    case h_2 => cases hstep
  | enqueue p =>
    rw [SendQueue.step] at hstep
    split at hstep
    case h_1 data nqueue _ =>
      cases hstep
      exact ⟨nqueue, fun a _ ha => (append_keeps s nqueue).2.2.1 a ha⟩
    case h_2 => cases hstep
  | dequeue =>
    simp only [SendQueue.step, Option.ite_none_right_eq_some, Option.some_inj] at hstep
    obtain ⟨-, rfl⟩ := hstep
    rw [(pop_keeps s).1]
    exact ⟨0, fun _ _ => id⟩
  | wake =>
    simp only [SendQueue.step, Option.ite_none_right_eq_some, Option.some_inj] at hstep
    obtain ⟨-, rfl⟩ := hstep
    exact ⟨0, fun _ _ => id⟩
  | send =>
    rw [SendQueue.step] at hstep
    split at hstep
    case h_1 xqueue _ =>
      cases hstep
      rw [(transmit_keeps s xqueue).1]
      exact ⟨0, fun _ _ => id⟩
    case h_2 => cases hstep
  | freeData =>
    rw [SendQueue.step] at hstep
    split at hstep
    case h_1 xqueue _ =>
      split at hstep
      case h_1 b _ =>
        cases hstep
        exact hrelease b (.freed xqueue)
      case h_2 =>
        cases hstep
        exact ⟨0, fun _ _ => id⟩
    case h_2 => cases hstep
  | freeCell =>
    rw [SendQueue.step] at hstep
    split at hstep
    case h_1 xqueue _ =>
      cases hstep
      exact hrelease xqueue .locking
    case h_2 => cases hstep

/-- So there is always memory left. -/
theorem finite_mem_of_run {actions : List (Action ι)}
    (h : Run SendQueue.Step (queueStart ι) actions s) : {a | s.mem a ≠ none}.Finite := by
  refine h.keeps (I := fun s => {a | s.mem a ≠ none}.Finite) ?_ ?_
  · intro s action t hfinite hstep
    obtain ⟨x, hx⟩ := SendQueue.exists_new_of_step hstep
    refine (hfinite.insert x).subset fun a ha => ?_
    by_cases hne : a = x
    · exact Or.inl hne
    · exact Or.inr (hx a hne ha)
  · simp [queueStart]

/-- In every run, exactly what is in use is allocated; and when all is sent and every thread is out
of its call, nothing is. -/
theorem sendQueue_memory {actions : List (Action ι)}
    (h : Run SendQueue.Step (queueStart ι) actions s) :
    (∃ cells, Linked (PacketAt s.mem) s.head cells ∧ ∀ a, s.mem a ≠ none ↔ s.InUse cells a) ∧
      ((∀ p, s.producers p = .idle) → s.head = none → s.sender = .locking ∨ s.sender = .waiting →
        ∀ a, s.mem a = none) := by
  obtain ⟨own, hand, cells, hordered, hleak⟩ := noLeak_of_run h
  refine ⟨⟨cells, hordered.linked.imp fun _ _ _ _ hqueued => hqueued.1.packetAt, fun a =>
    ⟨hleak a, hordered.ne_none_of_inUse⟩⟩, fun hidle hhead hsender a => ?_⟩
  exact hordered.mem_eq_none hleak hidle hhead hsender a

/-- Two packets are queued and sent, and nothing is left of them. -/
theorem sendQueue_memory_twoPackets :
    ∃ s, Run SendQueue.Step (queueStart Bool) [.copy false [1, 2] 0, .copy true [3] 1,
        .fill true 2, .fill false 3, .enqueue true, .enqueue false, .dequeue, .send, .freeData,
        .freeCell, .dequeue, .send, .freeData, .freeCell] s ∧
      s.transmitted = [[3], [1, 2]] ∧ ∀ a, s.mem a = none := by
  obtain ⟨s, hrun, hsent, hidle, hhead, hsender⟩ := Run.exists_of_foldlM_some
    (f := SendQueue.step) (s := queueStart Bool)
    (P := fun s => s.transmitted = [[3], [1, 2]] ∧ (∀ p, s.producers p = .idle) ∧ s.head = none ∧
      s.sender = .locking)
    [.copy false [1, 2] 0, .copy true [3] 1, .fill true 2, .fill false 3, .enqueue true,
      .enqueue false, .dequeue, .send, .freeData, .freeCell, .dequeue, .send, .freeData, .freeCell]
    (by decide +kernel)
  exact ⟨s, hrun, hsent, (sendQueue_memory hrun).2 hidle hhead (Or.inl hsender)⟩

end Runs

end OldRadio.First
