import OldRadio.First.Packets
import OldRadio.First.SendQueueRuns
import OldRadio.Library.Mutex

/-!
# The threads of the queue, statement by statement

`queue.c` of `radio/serial` with both of its mutexes. Threads call
`queue_send_packet` and `queue_send_get_size`; `queue_sender` takes packets off
the queue under `queue_send_mutex` and sends them under `queue_holdoff_mutex`;
`queue_receiver` locks the latter when it has seen a packet begin, and holds it
until the hold-off has passed; its handler may call the functions of the queue, too.
A step is one statement, or one call of a function that waits. `send_packet` may
fail its assertion or write past its buffer, and `recv_packet` past the one that
it is given; then all threads stop. What the sections under `queue_send_mutex`
do is one step of the send queue each, although other threads go on meanwhile.
-/

namespace OldRadio.First

open Library

/-- How far a thread is in `queue_send_packet` or `queue_send_get_size`. -/
inductive Caller where
  /-- Not in a call. -/
  | idle
  /-- The packet is copied. -/
  | copied (data : List UInt8) (qdata : Addr)
  /-- The cell is filled in; `queue_send_mutex` is to be locked. -/
  | filled (data : List UInt8) (nqueue : Addr)
  /-- `queue_send_tail` is to be tested. -/
  | testing (data : List UInt8) (nqueue : Addr)
  /-- It is `NULL`; `queue_send_head` is to be written. -/
  | heading (data : List UInt8) (nqueue : Addr)
  /-- `queue_send_tail` is to be written, too. -/
  | tailing (nqueue : Addr)
  /-- The signal is to be sent. -/
  | signalling
  /-- It is not `NULL`; the cell is to be linked behind the last one. -/
  | linking (data : List UInt8) (nqueue : Addr)
  /-- `queue_send_tail` is to be moved on. -/
  | moving (nqueue : Addr)
  /-- The mutex is to be unlocked. -/
  | unlocking
  /-- There was a cell; the mutex is to be locked in order to count. -/
  | measuring
  /-- `queue_send_head` is to be read. -/
  | reading
  /-- In the loop that counts, before the test of `x`. -/
  | counting (x : Option Addr) (count : Nat)
  /-- The mutex is to be unlocked, and the count returned. -/
  | counted (count : Nat)
  deriving DecidableEq, Repr

/-- How far the thread of `queue_sender` is. -/
inductive SenderAt where
  /-- `queue_send_mutex` is to be locked, at the top of the loop or behind the wait. -/
  | locking
  /-- `queue_send_head` is to be tested, and read if it is not `NULL`. -/
  | testing
  /-- In `pthread_cond_wait`. -/
  | waiting
  /-- `queue_send_head` is to be moved on. -/
  | taking (xqueue : Addr)
  /-- `queue_send_tail` is to be cleared if the queue is empty. -/
  | moved (xqueue : Addr)
  /-- The mutex is to be unlocked. -/
  | unlocking (xqueue : Addr)
  /-- `queue_holdoff_mutex` is to be locked. -/
  | holding (xqueue : Addr)
  /-- `send_packet` is to be called. -/
  | sending (xqueue : Addr)
  /-- `queue_holdoff_mutex` is to be unlocked. -/
  | done (xqueue : Addr)
  /-- The bytes are to be freed. -/
  | sent (xqueue : Addr)
  /-- The cell is to be freed. -/
  | freed (xqueue : Addr)
  deriving DecidableEq, Repr

/-- How far the thread of `queue_receiver` is. -/
inductive ReceiverAt where
  /-- In `wait_packet`, for a packet to begin. -/
  | listening
  /-- `queue_holdoff_mutex` is to be locked. -/
  | locking
  /-- In `recv_packet`. -/
  | receiving
  /-- In the handler. -/
  | handling
  /-- In `wait_packet`, for the hold-off to pass. -/
  | holdingOff
  /-- `queue_holdoff_mutex` is to be unlocked. -/
  | unlocking
  deriving DecidableEq, Repr

/-- Who holds `queue_send_mutex`. -/
inductive SendHolder (ι : Type) where
  /-- A thread that calls a function of the queue. -/
  | caller (p : Option ι)
  /-- The sender. -/
  | sender
  deriving DecidableEq, Repr

/-- Who holds `queue_holdoff_mutex`. -/
inductive HoldoffHolder where
  /-- The sender. -/
  | sender
  /-- The receiver. -/
  | receiver
  deriving DecidableEq, Repr

/-- What stops all threads. -/
inductive QueueStop where
  /-- An assertion of `send_packet` has failed. -/
  | assertion (abort : SymbolAbort)
  /-- `send_packet` has written past the end of `send_buffer`. -/
  | sendBuffer
  /-- `recv_packet` has written past the end of `buffer` in `queue_receiver`. -/
  | buffer
  deriving DecidableEq, Repr

/-- `sizeof(buffer)` in `queue_receiver`. -/
def receiverBufferLen : Nat := 1024

/-- The threads, the memory and the globals, with what happened so far. -/
structure QueueThreads (ι : Type) where
  /-- What is allocated. -/
  mem : Memory
  /-- `queue_send_head`. -/
  head : Option Addr
  /-- `queue_send_tail`. -/
  tail : Option Addr
  /-- `queue_send_mutex`. -/
  sendMutex : Option (SendHolder ι)
  /-- `queue_holdoff_mutex`. -/
  holdoffMutex : Option HoldoffHolder
  /-- The threads that call functions of the queue; `none` is the receiver's, in its handler. -/
  callers : Option ι → Caller
  /-- The thread of `queue_sender`. -/
  sender : SenderAt
  /-- The thread of `queue_receiver`. -/
  receiver : ReceiverAt
  /-- There is a `queue_recv_handler`. -/
  recvHandler : Bool
  /-- A signal has reached the waiting thread, which has not run since. -/
  signalled : Bool
  /-- Memory that is not allocated was read, written or freed. -/
  fault : Bool
  /-- The program has stopped. -/
  stopped : Option QueueStop
  /-- The packets linked into the queue so far. -/
  enqueued : List (List UInt8)
  /-- What `send_packet` was called with so far, and has returned from. -/
  transmitted : List (List UInt8)
  /-- What went out on the port for each of them. -/
  wire : List (List UInt8)

/-- `queue_start`: both threads begin. -/
def threadsStart (ι : Type) : QueueThreads ι where
  mem _ := none
  head := none
  tail := none
  sendMutex := none
  holdoffMutex := none
  callers _ := .idle
  sender := .locking
  receiver := .listening
  recvHandler := false
  signalled := false
  fault := false
  stopped := none
  enqueued := []
  transmitted := []
  wire := []

/-- The steps of the threads. -/
inductive ThreadAction (ι : Type) where
  /-- `queue_send_packet` begins: `malloc` returns `qdata`, and the packet is copied there. -/
  | copy (p : Option ι) (data : List UInt8) (qdata : Addr)
  /-- `malloc` returns `nqueue`, and the cell is filled in. -/
  | fill (p : Option ι) (nqueue : Addr)
  /-- `queue_send_get_size` begins: it returns 0 if `queue_send_head` is `NULL`. -/
  | getSize (p : Option ι)
  /-- The next statement of a thread in a call. -/
  | caller (p : Option ι)
  /-- The next statement of `queue_sender`. -/
  | sender
  /-- `send_packet` returns, after these outcomes of `write`. -/
  | send (outcomes : List (Option Nat))
  /-- `pthread_cond_wait` returns, for a signal or spuriously. -/
  | wake (spurious : Bool)
  /-- The next statement of `queue_receiver`, with what `wait_packet` or `recv_packet` returns if it
  calls one of them. -/
  | receiver (result : Nat)
  /-- `queue_register_recv`, with a function or with `NULL`. -/
  | registerRecv (handler : Bool)
  deriving DecidableEq, Repr

namespace QueueThreads

variable {ι : Type}

/-- A thread may call a function of the queue: it is in none, and the receiver's is in its
handler. -/
def MayCall (s : QueueThreads ι) (p : Option ι) : Prop :=
  s.callers p = .idle ∧ (p = none → s.receiver = .handling)

instance [DecidableEq ι] (s : QueueThreads ι) (p : Option ι) : Decidable (s.MayCall p) :=
  inferInstanceAs (Decidable (_ ∧ _))

variable [DecidableEq ι]

/-- A thread is further in its call. -/
def setCaller (s : QueueThreads ι) (p : Option ι) (c : Caller) : QueueThreads ι :=
  { s with callers := Function.update s.callers p c }

/-- The next statement of a thread in a call. -/
def callerStep (s : QueueThreads ι) (p : Option ι) : Option (QueueThreads ι) :=
  match s.callers p with
  | .filled data nqueue =>
    if s.sendMutex = none then
      some { s.setCaller p (.testing data nqueue) with sendMutex := some (.caller p) }
    else none
  | .testing data nqueue =>
    if s.tail = none then some (s.setCaller p (.heading data nqueue))
    else some (s.setCaller p (.linking data nqueue))
  | .heading data nqueue => some
    { s.setCaller p (.tailing nqueue) with
      head := some nqueue
      enqueued := s.enqueued ++ [data] }
  | .tailing nqueue => some { s.setCaller p .signalling with tail := some nqueue }
  | .signalling => some
    { s.setCaller p .unlocking with signalled := s.signalled || s.sender == .waiting }
  | .linking data nqueue =>
    match s.tail with
    | none => some { s with fault := true }
    | some tail =>
      match cellAt s.mem tail with
      | none => some { s with fault := true }
      | some cell => some
        { s.setCaller p (.moving nqueue) with
          mem := Function.update s.mem tail (some (.queue { cell with next := some nqueue }))
          enqueued := s.enqueued ++ [data] }
  | .moving nqueue => some { s.setCaller p .unlocking with tail := some nqueue }
  | .unlocking => some { s.setCaller p .idle with sendMutex := none }
  | .measuring =>
    if s.sendMutex = none then
      some { s.setCaller p .reading with sendMutex := some (.caller p) }
    else none
  | .reading => some (s.setCaller p (.counting s.head 0))
  | .counting none count => some (s.setCaller p (.counted count))
  | .counting (some x) count =>
    match cellAt s.mem x with
    | none => some { s with fault := true }
    | some cell => some (s.setCaller p (.counting cell.next (count + 1)))
  | .counted _ => some { s.setCaller p .idle with sendMutex := none }
  | .idle | .copied .. => none

/-- `free`. -/
def release (s : QueueThreads ι) (a : Addr) (sender : SenderAt) : QueueThreads ι :=
  if s.mem a = none then { s with fault := true }
  else { s with mem := Function.update s.mem a none, sender }

/-- The next statement of `queue_sender`. -/
def senderStep (s : QueueThreads ι) : Option (QueueThreads ι) :=
  match s.sender with
  | .locking =>
    if s.sendMutex = none then some { s with sender := .testing, sendMutex := some .sender }
    else none
  | .testing =>
    match s.head with
    | none => some { s with sender := .waiting, signalled := false, sendMutex := none }
    | some xqueue => some { s with sender := .taking xqueue }
  | .waiting => none
  | .taking xqueue =>
    match cellAt s.mem xqueue with
    | none => some { s with fault := true }
    | some cell => some { s with head := cell.next, sender := .moved xqueue }
  | .moved xqueue => some
    { s with tail := if s.head = none then none else s.tail, sender := .unlocking xqueue }
  | .unlocking xqueue => some { s with sender := .holding xqueue, sendMutex := none }
  | .holding xqueue =>
    if s.holdoffMutex = none then
      some { s with sender := .sending xqueue, holdoffMutex := some .sender }
    else none
  | .sending _ => none
  | .done xqueue => some { s with sender := .sent xqueue, holdoffMutex := none }
  | .sent xqueue =>
    match cellAt s.mem xqueue with
    | none => some { s with fault := true }
    | some cell => some (s.release cell.data (.freed xqueue))
  | .freed xqueue => some (s.release xqueue .locking)

/-- The call of `send_packet`: what it returns is not looked at. -/
def sendStep (table : SymbolTable) (s : QueueThreads ι) (outcomes : List (Option Nat)) :
    Option (QueueThreads ι) :=
  match s.sender with
  | .sending xqueue =>
    match (cellAt s.mem xqueue).bind (bytesOf s.mem) with
    | none => some { s with fault := true }
    | some data =>
      match table.sendFrame data with
      | .error abort => some { s with stopped := some (.assertion abort) }
      | .ok frame =>
        if maxPacketSymbols < frame.length then some { s with stopped := some .sendBuffer }
        else
          match SymbolTable.writeLoop frame 0 outcomes with
          | (none, _) => none
          | (some _, bytes) => some
            { s with
              transmitted := s.transmitted ++ [data]
              wire := s.wire ++ [bytes]
              sender := .done xqueue }
  | _ => none

/-- The next statement of `queue_receiver`. -/
def receiverStep (s : QueueThreads ι) (result : Nat) : Option (QueueThreads ι) :=
  match s.receiver with
  | .listening => some (if result ≠ 0 then { s with receiver := .locking } else s)
  | .locking =>
    if s.holdoffMutex = none then
      some { s with receiver := .receiving, holdoffMutex := some .receiver }
    else none
  | .receiving => some
    (if receiverBufferLen < result then { s with stopped := some .buffer }
    else { s with
      receiver := if result ≠ 0 ∧ s.recvHandler = true then .handling else .holdingOff })
  | .handling =>
    if s.callers none = .idle then some { s with receiver := .holdingOff } else none
  | .holdingOff => some { s with receiver := if result ≠ 0 then .receiving else .unlocking }
  | .unlocking => some { s with receiver := .listening, holdoffMutex := none }

/-- What a thread does that is ready for it; `malloc` returns memory that is not allocated. -/
def act (table : SymbolTable) (s : QueueThreads ι) : ThreadAction ι → Option (QueueThreads ι)
  | .copy p data qdata =>
    if s.MayCall p ∧ s.mem qdata = none then
      some { s.setCaller p (.copied data qdata) with
        mem := Function.update s.mem qdata (some (.bytes data)) }
    else none
  | .fill p nqueue =>
    match s.callers p with
    | .copied data qdata =>
      if s.mem nqueue = none then
        some { s.setCaller p (.filled data nqueue) with
          mem := Function.update s.mem nqueue
            (some (.queue { data := qdata, length := data.length, next := none })) }
      else none
    | _ => none
  | .getSize p =>
    if s.MayCall p then some (if s.head = none then s else s.setCaller p .measuring) else none
  | .caller p => s.callerStep p
  | .sender => s.senderStep
  | .send outcomes => s.sendStep table outcomes
  | .wake spurious =>
    if s.sender = .waiting ∧ (s.signalled = true ∨ spurious = true) then
      some { s with sender := .locking, signalled := false }
    else none
  | .receiver result => s.receiverStep result
  | .registerRecv handler => some { s with recvHandler := handler }

/-- A step of a thread; there is none if the program has stopped. -/
def step (table : SymbolTable) (s : QueueThreads ι) (action : ThreadAction ι) :
    Option (QueueThreads ι) :=
  if s.stopped = none then s.act table action else none

/-- A step as a relation. -/
def Step (table : SymbolTable) (s : QueueThreads ι) (action : ThreadAction ι)
    (t : QueueThreads ι) : Prop :=
  s.step table action = some t

theorem step_iff {s t : QueueThreads ι} {action : ThreadAction ι} :
    s.Step table action t ↔ s.stopped = none ∧ s.act table action = some t := by
  rw [Step, step, Option.ite_none_right_eq_some]

end QueueThreads

/-! ## Sections -/

/-- A thread holds `queue_send_mutex`. -/
def Caller.holds : Caller → Bool
  | .testing .. | .heading .. | .tailing _ | .signalling | .linking .. | .moving _ | .unlocking
  | .reading | .counting .. | .counted _ => true
  | .idle | .copied .. | .filled .. | .measuring => false

/-- The sender holds `queue_send_mutex`. -/
@[simp]
def SenderAt.holds : SenderAt → Bool
  | .testing | .taking _ | .moved _ | .unlocking _ => true
  | .locking | .waiting | .holding _ | .sending _ | .done _ | .sent _ | .freed _ => false

/-- The sender holds `queue_holdoff_mutex`. -/
@[simp]
def SenderAt.onAir : SenderAt → Bool
  | .sending _ | .done _ => true
  | .locking | .testing | .waiting | .taking _ | .moved _ | .unlocking _ | .holding _ | .sent _
  | .freed _ => false

/-- The receiver holds `queue_holdoff_mutex`. -/
@[simp]
def ReceiverAt.hearing : ReceiverAt → Bool
  | .receiving | .handling | .holdingOff | .unlocking => true
  | .listening | .locking => false

/-- How far a thread is if its section is one step: before the cell is linked, or done. -/
def Caller.producer : Caller → Producer
  | .copied data qdata => .copied data qdata
  | .filled data nqueue | .testing data nqueue | .heading data nqueue | .linking data nqueue =>
    .filled data nqueue
  | .idle | .tailing _ | .signalling | .moving _ | .unlocking | .measuring | .reading
  | .counting .. | .counted _ => .idle

/-- How far the sender is if its section is one step: before the head is moved on, or done. -/
def SenderAt.sender : SenderAt → Sender
  | .locking | .testing | .taking _ => .locking
  | .waiting => .waiting
  | .moved xqueue | .unlocking xqueue | .holding xqueue | .sending xqueue => .sending xqueue
  | .done xqueue | .sent xqueue => .sent xqueue
  | .freed xqueue => .freed xqueue

/-- What a thread in its section makes of `queue_send_tail`. -/
def Caller.tail (tail : Option Addr) : Caller → Option Addr
  | .tailing nqueue | .moving nqueue => some nqueue
  | _ => tail

/-- What the sender in its section makes of `queue_send_tail`. -/
def SenderAt.tail (head tail : Option Addr) : SenderAt → Option Addr
  | .moved _ => if head = none then none else tail
  | _ => tail

/-- A thread in its section is still to signal. -/
def Caller.toSignal : Caller → Bool
  | .tailing _ | .signalling => true
  | _ => false

theorem SenderAt.sender_beq_waiting (x : SenderAt) :
    (x.sender == Sender.waiting) = (x == SenderAt.waiting) := by
  cases x
  all_goals rfl

theorem Caller.tail_of_not_holds {c : Caller} (h : c.holds = false) (tail : Option Addr) :
    c.tail tail = tail := by
  cases c
  all_goals first | rfl | cases h

theorem Caller.toSignal_of_not_holds {c : Caller} (h : c.holds = false) : c.toSignal = false := by
  cases c
  all_goals first | rfl | cases h

namespace QueueThreads

variable {ι : Type}

/-- `queue_send_tail` behind the section that is being run. -/
def tailDue (s : QueueThreads ι) : Option Addr :=
  match s.sendMutex with
  | some (.caller p) => (s.callers p).tail s.tail
  | some .sender => s.sender.tail s.head s.tail
  | none => s.tail

/-- The section that is being run is still to signal to the sender. -/
def signalDue (s : QueueThreads ι) : Bool :=
  match s.sendMutex with
  | some (.caller p) => (s.callers p).toSignal && s.sender == .waiting
  | _ => false

/-- The send queue, with the section that is being run as if it were done from the statement on
that changes `queue_send_head` or links a cell. -/
def sendQueue (s : QueueThreads ι) : SendQueue (Option ι) where
  mem := s.mem
  head := s.head
  tail := s.tailDue
  producers p := (s.callers p).producer
  sender := s.sender.sender
  signalled := s.signalled || s.signalDue
  fault := s.fault
  enqueued := s.enqueued
  transmitted := s.transmitted

/-- Who is in a section under `queue_send_mutex`. -/
def inSection (s : QueueThreads ι) : SendHolder ι → Bool
  | .caller p => (s.callers p).holds
  | .sender => s.sender.holds

/-- Who is in one under `queue_holdoff_mutex`. -/
def inHoldoff (s : QueueThreads ι) : HoldoffHolder → Bool
  | .sender => s.sender.onAir
  | .receiver => s.receiver.hearing

/-- What the mutexes are for. -/
structure Exclusive (s : QueueThreads ι) : Prop where
  /-- One guards what the calls and the sender do with the queue, -/
  send : Guards s.sendMutex s.inSection
  /-- and one what the sender and the receiver do with the port. -/
  holdoff : Guards s.holdoffMutex s.inHoldoff
  /-- What was tested is still so: the queue is empty, -/
  heading : ∀ p data nqueue, s.callers p = .heading data nqueue → s.tail = none
  /-- or it is not, -/
  linking : ∀ p data nqueue, s.callers p = .linking data nqueue → s.tail ≠ none
  /-- and the first cell is the one that the sender has read. -/
  taking : ∀ xqueue, s.sender = .taking xqueue → s.head = some xqueue
  /-- Only the handler makes calls in the receiver's thread. -/
  handler : s.callers none ≠ .idle → s.receiver = .handling

theorem exclusive_threadsStart : Exclusive (threadsStart ι) where
  send := Guards.free.keep fun q => by
    cases q
    · rfl
    · rfl
  holdoff := Guards.free.keep fun q => by
    cases q
    · rfl
    · rfl
  heading _ _ _ h := by cases h
  linking _ _ _ h := by cases h
  taking _ h := by cases h
  handler h := absurd rfl h

section Exclusive

variable {s : QueueThreads ι} {p : Option ι}

/-- A thread in its section holds `queue_send_mutex`. -/
theorem Exclusive.callers (h : Exclusive s) (p : Option ι) :
    (s.callers p).holds = true ↔ s.sendMutex = some (.caller p) := h.send (.caller p)

/-- So does the sender. -/
theorem Exclusive.sender (h : Exclusive s) :
    s.sender.holds = true ↔ s.sendMutex = some .sender := h.send .sender

/-- A sender that sends holds `queue_holdoff_mutex`. -/
theorem Exclusive.onAir (h : Exclusive s) :
    s.sender.onAir = true ↔ s.holdoffMutex = some .sender := h.holdoff .sender

/-- So does a receiver that hears a packet, or waits for its hold-off to pass. -/
theorem Exclusive.hearing (h : Exclusive s) :
    s.receiver.hearing = true ↔ s.holdoffMutex = some .receiver := h.holdoff .receiver

/-- Only one thread is in its section. -/
theorem Exclusive.eq_of_holds (h : Exclusive s) (hp : (s.callers p).holds = true) {q : Option ι}
    (hq : (s.callers q).holds = true) : q = p :=
  SendHolder.caller.inj (h.send.eq (p := SendHolder.caller q) (q := SendHolder.caller p) hq hp)

theorem Exclusive.sender_not_holds (h : Exclusive s) (hp : (s.callers p).holds = true) :
    s.sender.holds = false :=
  h.send.not_inside (p := SendHolder.caller p) (q := SendHolder.sender) hp (by simp)

theorem Exclusive.not_holds (h : Exclusive s) (hs : s.sender.holds = true) (q : Option ι) :
    (s.callers q).holds = false :=
  h.send.not_inside (p := SendHolder.sender) (q := SendHolder.caller q) hs (by simp)

/-- While the sender sends, the receiver does not hear. -/
theorem Exclusive.not_hearing (h : Exclusive s) (hair : s.sender.onAir = true) :
    s.receiver.hearing = false :=
  h.holdoff.not_inside (p := HoldoffHolder.sender) (q := HoldoffHolder.receiver) hair (by simp)

end Exclusive

end QueueThreads

end OldRadio.First
