import OldRadio.Library.Lists
import OldRadio.Second.Vtime
import OldRadio.Second.Crc
import OldRadio.Second.Symbols

/-!
# The radio link

`radio.c` over a serial port. What the port does is an input: each turn of a
receiving loop reads the clock, polls and reads once, so a `Turn` says what the
clock shows, whether `poll` reports data and how many bytes `read` finds. The
bytes themselves are one stream, cut by the turns. Sending is a loop over the
outcomes of `write`.
-/

namespace OldRadio.Second

open Library

/-- `RADIO_MTU`. -/
def radioMtu : Nat := 1600

/-- `PREAMBLE_LEN`. -/
def preambleLen : Nat := 3

/-- `UARTSYNC_LEN`. -/
def uartsyncLen : Nat := 2

/-- `EPILOGUE_LEN`. -/
def epilogueLen : Nat := 3

/-- `MAX_FRAME`: the size of both frame buffers. -/
def maxFrame : Nat := (radioMtu + 6) * 8 / 7 + preambleLen + uartsyncLen + epilogueLen

/-! ## Sending -/

/-- The frame `radio_send` builds: preamble, sync, checksummed data, epilogue.
The two bytes behind the copied packet are stale until `crc16_set` writes them. -/
def radioFrame (packet : Packet) : Except Abort (List UInt8) := do
  if radioMtu < packet.data.length then throw .radioMtu
  let packetBuffer ← crc16Set (packet.data ++ List.replicate crc16Len 0)
  return List.replicate preambleLen symbolStart ++ List.replicate uartsyncLen symbolSync ++
    bytesToSymbols packetBuffer ++ List.replicate epilogueLen symbolEnd

/-- The loop of `radio_send` over the outcomes of `write`: `none` is a failed
call, `some k` a call with room for `k` bytes. Returns the final `n` and the
bytes that went out. -/
def writeLoop (frame : List UInt8) : Nat → List UInt8 → List (Option Nat) → Nat × List UInt8
  | n, wire, [] => (n, wire)
  | n, wire, outcome :: outcomes =>
    if n < frame.length then
      match outcome with
      | none => writeLoop frame n wire outcomes
      | some k =>
        let e := min k (frame.length - n)
        writeLoop frame (n + e) (wire ++ (frame.drop n).take e) outcomes
    else (n, wire)

/-- `radio_send`: whether the loop is done after these outcomes, and the bytes
that went out. -/
def radioSend (packet : Packet) (outcomes : List (Option Nat)) :
    Except Abort (Bool × List UInt8) := do
  let frame ← radioFrame packet
  let (n, wire) := writeLoop frame 0 [] outcomes
  return (decide (frame.length ≤ n), wire)

/-! ## Receiving -/

/-- What the environment does in one turn of a receiving loop. -/
structure Turn where
  /-- The reading of `vtime_from_wall`. -/
  now : VTime
  /-- `poll` reports data before its timeout, if data is there. -/
  ready : Bool
  /-- How many bytes `read` finds; it returns at least one. -/
  avail : Nat

/-- The port: the bytes still to come, the turns, and the timeouts `poll` was given. -/
structure Port where
  /-- Bytes not read yet. -/
  stream : List UInt8
  /-- The environment's behaviour, turn by turn. -/
  turns : Nat → Turn
  /-- Turns taken so far. -/
  turn : Nat := 0
  /-- The clock reading and the timeout of each `poll`, latest first. -/
  polls : List (VTime × Int) := []

namespace Port

/-- The turn about to be taken. -/
def current (port : Port) : Turn := port.turns port.turn

/-- End the turn. -/
def advance (port : Port) : Port := { port with turn := port.turn + 1 }

/-- `poll` with a timeout: whether it returns 1. -/
def poll (port : Port) (timeoutMs : Int) : Bool × Port :=
  (port.current.ready && !port.stream.isEmpty,
    { port with polls := (port.current.now, timeoutMs) :: port.polls })

/-- How many bytes `read` returns into `room` bytes. -/
def readCount (port : Port) (room : Nat) : Nat := min (max port.current.avail 1) room

/-- `read` into a buffer with `room` bytes left. -/
def read (port : Port) (room : Nat) : List UInt8 × Port :=
  (port.stream.take (port.readCount room),
    { port with stream := port.stream.drop (port.readCount room) })

end Port

/-- `int timeout_ms = (timeout - vtime) / VTIME_MILLIS`: an unsigned difference,
cut to a signed 32-bit number. -/
def timeoutMs (timeout now : VTime) : Int :=
  ((timeout - now) / UInt64.ofNat vtimeMillis).toUInt32.toInt32.toInt

/-- The loop of `radio_wait`; each turn that goes on has read one byte. -/
def waitLoop (timeout : VTime) : Nat → Port → Bool × Port
  | 0, port => (false, port)
  | fuel + 1, port =>
    if timeout < port.current.now then (false, port.advance)
    else
      let (ready, port) := port.poll (max (timeoutMs timeout port.current.now) 1)
      if !ready then (false, port.advance)
      else
        let (bytes, port) := port.read 1
        if bytes = [symbolStart] then (true, port.advance)
        else waitLoop timeout fuel port.advance

/-- `radio_wait`: skip bytes until a `Symbol_Start` or a timeout. -/
def radioWait (timeout : VTime) (port : Port) : Bool × Port :=
  waitLoop timeout (port.stream.length + 1) port

/-- The reading loop of `radio_recv`; `recv` is `recv_buffer[0..n)`. The result
is the buffer up to `Symbol_End`, or nothing on a timeout or an overrun. -/
def recvLoop (timeout : VTime) : Nat → List UInt8 → Port → Option (List UInt8) × Port
  | 0, _, port => (none, port)
  | fuel + 1, recv, port =>
    if maxFrame ≤ recv.length then (none, port)
    else
      let ms := timeoutMs timeout port.current.now
      if ms < 1 then (none, port.advance)
      else
        let (ready, port) := port.poll ms
        if !ready then (none, port.advance)
        else
          let (bytes, port) := port.read (maxFrame - recv.length)
          -- The rest of this read, after the stop mark, is dropped.
          if symbolEnd ∈ bytes then
            (some (recv ++ bytes.takeWhile (· ≠ symbolEnd)), port.advance)
          else recvLoop timeout fuel (recv ++ bytes) port.advance

/-- The symbols `radio_recv` hands to `symbols_to_bytes`: from the first valid one on. -/
def frameSymbols (recv : List UInt8) : List UInt8 := recv.dropWhile fun s => !symbolValid s

/-- The bytes `symbols_to_bytes` writes to `packet_buffer` and behind it. The
buffer is plain memory here: what a long frame writes past its end is read back
by `crc16_check` as it was written. -/
def packetBytes (recv : List UInt8) : List UInt8 := symbolsToBytes (frameSymbols recv)

/-- The end of `radio_recv`: decode, check, and make a packet of the payload. -/
def decodeFrame (recv : List UInt8) : Except Abort (Option Packet) :=
  let packetBuffer := packetBytes recv
  if crc16Check packetBuffer then
    some <$> packetNew (packetBuffer.take (packetBuffer.length - crc16Len))
  else .ok none

/-- `radio_recv`: read one frame and decode it. -/
def radioRecv (timeout : VTime) (port : Port) : Except Abort (Option Packet) × Port :=
  match recvLoop timeout (maxFrame + 1) [] port with
  | (none, port) => (.ok none, port)
  | (some recv, port) => (decodeFrame recv, port)

end OldRadio.Second
