import Mathlib.Logic.Function.Basic

/-!
# The send queue of the first version

`queue.c` of `radio/serial`: any number of threads call `queue_send_packet`,
which copies a packet into a new cell and links it at the tail of a list; one
thread runs `queue_sender`, which takes cells off the head, sends them and frees
them, and waits on a condition variable while the list is empty. A step is one
section under `queue_send_mutex`, or one allocation, call or release outside of
it. Reading or freeing memory that is not allocated is a fault.
-/

namespace OldRadio.First

/-- An address; `NULL` is no address. -/
abbrev Addr : Type := Nat

/-- A `queue_t`. -/
structure QueueT where
  /-- Where the bytes are. -/
  data : Addr
  /-- How many there are. -/
  length : Nat
  /-- The cell behind this one. -/
  next : Option Addr
  deriving DecidableEq, Repr

/-- What `malloc` returned a piece of memory for. -/
inductive Block where
  /-- A copy of a packet. -/
  | bytes (data : List UInt8)
  /-- A cell of the queue. -/
  | queue (cell : QueueT)
  deriving DecidableEq, Repr

/-- The memory that is allocated. -/
abbrev Memory : Type := Addr → Option Block

/-- How far a thread is in `queue_send_packet`. -/
inductive Producer where
  /-- Not in a call. -/
  | idle
  /-- The packet is copied. -/
  | copied (data : List UInt8) (qdata : Addr)
  /-- The cell is filled in; the section under the mutex comes next. -/
  | filled (data : List UInt8) (nqueue : Addr)
  deriving DecidableEq, Repr

/-- How far the thread of `queue_sender` is. -/
inductive Sender where
  /-- About to lock the mutex, or woken up and about to lock it again. -/
  | locking
  /-- In `pthread_cond_wait`. -/
  | waiting
  /-- About to call `send_packet`. -/
  | sending (xqueue : Addr)
  /-- About to free the bytes. -/
  | sent (xqueue : Addr)
  /-- About to free the cell. -/
  | freed (xqueue : Addr)
  deriving DecidableEq, Repr

/-- The threads, the memory and the globals of the send queue, with what happened so far. -/
structure SendQueue (ι : Type) where
  /-- What is allocated. -/
  mem : Memory
  /-- `queue_send_head`. -/
  head : Option Addr
  /-- `queue_send_tail`. -/
  tail : Option Addr
  /-- The threads that send packets. -/
  producers : ι → Producer
  /-- The thread that takes them. -/
  sender : Sender
  /-- A signal has reached the waiting thread, which has not run since. -/
  signalled : Bool
  /-- Memory that is not allocated was read or freed. -/
  fault : Bool
  /-- The packets linked into the queue so far. -/
  enqueued : List (List UInt8)
  /-- What `send_packet` was called with so far. -/
  transmitted : List (List UInt8)

/-- `queue_start`: the sender's thread begins. -/
def queueStart (ι : Type) : SendQueue ι where
  mem _ := none
  head := none
  tail := none
  producers _ := .idle
  sender := .locking
  signalled := false
  fault := false
  enqueued := []
  transmitted := []

/-- The steps of the threads. -/
inductive Action (ι : Type) where
  /-- `queue_send_packet` begins: `malloc` returns `qdata`, and the packet is copied there. -/
  | copy (p : ι) (data : List UInt8) (qdata : Addr)
  /-- `malloc` returns `nqueue`, and the cell is filled in. -/
  | fill (p : ι) (nqueue : Addr)
  /-- The section under the mutex of `queue_send_packet`. -/
  | enqueue (p : ι)
  /-- The section under the mutex of `queue_sender`, up to waiting or unlocking. -/
  | dequeue
  /-- `pthread_cond_wait` returns, for a signal or without one. -/
  | wake
  /-- `send_packet`. -/
  | send
  /-- `free(xqueue->data)`. -/
  | freeData
  /-- `free(xqueue)`. -/
  | freeCell
  deriving DecidableEq, Repr

/-- The cell at an address. -/
def cellAt (mem : Memory) (a : Addr) : Option QueueT :=
  match mem a with
  | some (.queue cell) => some cell
  | _ => none

/-- The bytes that a cell stands for. -/
def bytesOf (mem : Memory) (cell : QueueT) : Option (List UInt8) :=
  match mem cell.data with
  | some (.bytes data) => if cell.length ≤ data.length then some (data.take cell.length) else none
  | _ => none

namespace SendQueue

variable {ι : Type}

/-- The section under the mutex of `queue_send_packet`. -/
def append (s : SendQueue ι) (nqueue : Addr) : SendQueue ι :=
  match s.tail with
  | none =>
    { s with
      tail := some nqueue
      head := some nqueue
      signalled := s.signalled || s.sender == .waiting }
  | some tail =>
    match cellAt s.mem tail with
    | some cell =>
      { s with
        mem := Function.update s.mem tail (some (.queue { cell with next := some nqueue }))
        tail := some nqueue }
    | none => { s with fault := true }

/-- The section under the mutex of `queue_sender`: wait while there is no packet, else take one. -/
def pop (s : SendQueue ι) : SendQueue ι :=
  match s.head with
  | none => { s with sender := .waiting, signalled := false }
  | some xqueue =>
    match cellAt s.mem xqueue with
    | some cell =>
      { s with
        head := cell.next
        tail := if cell.next = none then none else s.tail
        sender := .sending xqueue }
    | none => { s with fault := true }

/-- The call of `send_packet`. -/
def transmit (s : SendQueue ι) (xqueue : Addr) : SendQueue ι :=
  match (cellAt s.mem xqueue).bind (bytesOf s.mem) with
  | some data => { s with transmitted := s.transmitted ++ [data], sender := .sent xqueue }
  | none => { s with fault := true }

/-- `free`. -/
def release (s : SendQueue ι) (a : Addr) (sender : Sender) : SendQueue ι :=
  if s.mem a = none then { s with fault := true }
  else { s with mem := Function.update s.mem a none, sender }

/-- A step of a thread that is ready for it; `malloc` returns memory that is not allocated. -/
def step [DecidableEq ι] (s : SendQueue ι) : Action ι → Option (SendQueue ι)
  | .copy p data qdata =>
    if s.producers p = .idle ∧ s.mem qdata = none then
      some { s with
        mem := Function.update s.mem qdata (some (.bytes data))
        producers := Function.update s.producers p (.copied data qdata) }
    else none
  | .fill p nqueue =>
    match s.producers p with
    | .copied data qdata =>
      if s.mem nqueue = none then
        some { s with
          mem := Function.update s.mem nqueue
            (some (.queue { data := qdata, length := data.length, next := none }))
          producers := Function.update s.producers p (.filled data nqueue) }
      else none
    | _ => none
  | .enqueue p =>
    match s.producers p with
    | .filled data nqueue =>
      some { s.append nqueue with
        producers := Function.update s.producers p .idle
        enqueued := s.enqueued ++ [data] }
    | _ => none
  | .dequeue => if s.sender = .locking then some s.pop else none
  | .wake => if s.sender = .waiting then some { s with sender := .locking, signalled := false }
    else none
  | .send =>
    match s.sender with
    | .sending xqueue => some (s.transmit xqueue)
    | _ => none
  | .freeData =>
    match s.sender with
    | .sent xqueue =>
      match (cellAt s.mem xqueue).map QueueT.data with
      | some data => some (s.release data (.freed xqueue))
      | none => some { s with fault := true }
    | _ => none
  | .freeCell =>
    match s.sender with
    | .freed xqueue => some (s.release xqueue .locking)
    | _ => none

@[simp] theorem pop_enqueued (s : SendQueue ι) : s.pop.enqueued = s.enqueued := by
  unfold pop
  split
  · rfl
  · split <;> rfl

@[simp] theorem transmit_enqueued (s : SendQueue ι) (xqueue : Addr) :
    (s.transmit xqueue).enqueued = s.enqueued := by
  unfold transmit
  split <;> rfl

@[simp] theorem release_enqueued (s : SendQueue ι) (a : Addr) (sender : Sender) :
    (s.release a sender).enqueued = s.enqueued := by
  unfold release
  split <;> rfl

end SendQueue

/-- A cell as a packet and the address of the next one. -/
def PacketAt (mem : Memory) (a : Addr) (data : List UInt8) (next : Option Addr) : Prop :=
  ∃ cell, cellAt mem a = some cell ∧ bytesOf mem cell = some data ∧ cell.next = next

/-- The packet that the sender has taken and is about to send. -/
def SendQueue.inHand {ι : Type} (s : SendQueue ι) : List (List UInt8) :=
  match s.sender with
  | .sending xqueue => ((cellAt s.mem xqueue).bind (bytesOf s.mem)).toList
  | _ => []

/-- The steps of the thread of `queue_sender`. -/
def Action.ofSender {ι : Type} : Action ι → Bool
  | .copy .. | .fill .. | .enqueue .. => false
  | .dequeue | .wake | .send | .freeData | .freeCell => true

end OldRadio.First
