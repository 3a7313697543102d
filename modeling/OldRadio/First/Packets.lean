import OldRadio.First.Codec

/-!
# Packets on the port

`sendrecv.c` of `radio/serial`. A packet goes out as one frame: preamble, sync,
symbols and epilogue, built in a buffer whose size is worked out for seven-bit
symbols. What the port does with it, and what it delivers, is an input: the
outcomes of `write`, and for each turn of the reading loop those of `poll` and
`read`. Only `Symbol_End` ends a packet, and nothing looks at the room that the
caller has for it. A frame that is sent whole and fits the buffers gives its packet
back to the receiver, however the port cuts it.
-/

namespace OldRadio.First

open Library

/-- `PREAMBLE_LEN`. -/
def preambleLen : Nat := 3

/-- `UARTSYNC_LEN`. -/
def uartsyncLen : Nat := 2

/-- `EPILOGUE_LEN`. -/
def epilogueLen : Nat := 3

/-- `MAX_PACKET_BYTES`. -/
def maxPacketBytes : Nat := 8192

/-- `MAX_PACKET_SYMBOLS`: the size of `send_buffer`. -/
def maxPacketSymbols : Nat := maxPacketBytes * 8 / 7 + preambleLen + uartsyncLen + epilogueLen + 1

/-- `RECV_BUFFER_LEN`: the size of `recv_buffer`. -/
def recvBufferLen : Nat := maxPacketSymbols

namespace SymbolTable

variable (t : SymbolTable)

/-! ## Sending -/

/-- What `send_packet` writes into `send_buffer` and behind it. -/
def sendFrame (data : List UInt8) : Except SymbolAbort (List UInt8) :=
  if maxPacketBytes < data.length then .error .dataLength
  else do
    let symbols ← t.bytesToSymbols data
    return List.replicate preambleLen t.symbolStart ++ List.replicate uartsyncLen t.symbolSync ++
      symbols ++ List.replicate epilogueLen t.symbolEnd

/-- The loop of `send_packet` from `n` on, over the outcomes of `write`: `none` is a failed call,
`some k` one with room for `k` bytes. What it returns, if it has, and the bytes that go out. -/
def writeLoop (frame : List UInt8) : Nat → List (Option Nat) → Option Bool × List UInt8
  | n, [] => (if n < frame.length then none else some true, [])
  | n, outcome :: outcomes =>
    if n < frame.length then
      match outcome with
      | none => (some false, [])
      | some k =>
        let e := min k (frame.length - n)
        let (done, wire) := writeLoop frame (n + e) outcomes
        (done, (frame.drop n).take e ++ wire)
    else (some true, [])

/-- `send_packet`. -/
def sendPacket (data : List UInt8) (outcomes : List (Option Nat)) :
    Except SymbolAbort (Option Bool × List UInt8) := do
  let frame ← t.sendFrame data
  return writeLoop frame 0 outcomes

/-! ## Receiving -/

/-- What the environment does in one turn of the reading loop. -/
structure Turn where
  /-- What `poll` returns. -/
  poll : Int
  /-- How many bytes `read` finds, or nothing if it fails. -/
  read : Option Nat
  deriving DecidableEq, Repr

/-- How far the reading loop is. -/
inductive Reading where
  /-- It still reads. -/
  | going
  /-- `recv_packet` has returned 0. -/
  | failed
  /-- It has found `Symbol_End` behind these bytes. -/
  | stopped (recv : List UInt8)
  deriving DecidableEq, Repr

/-- The reading loop of `recv_packet`; `recv` is `recv_buffer[0..n)`. -/
def recvLoop : List Turn → List UInt8 → List UInt8 → Reading
  | [], recv, _ => if recvBufferLen ≤ recv.length then .failed else .going
  | turn :: turns, recv, stream =>
    if recvBufferLen ≤ recv.length then .failed
    else if turn.poll ≤ 0 then .failed
    else
      match turn.read with
      | none => .failed
      | some avail =>
        let got := stream.take (min avail (recvBufferLen - recv.length))
        if t.symbolEnd ∈ got then .stopped (recv ++ got.takeWhile (· ≠ t.symbolEnd))
        else recvLoop turns (recv ++ got) (stream.drop got.length)

/-- The symbols that are decoded: from the first valid one on. -/
def packetSymbols (recv : List UInt8) : List UInt8 := recv.dropWhile fun s => !t.symbolValid s

/-- The turn gets to the bytes that `read` finds. -/
def Turn.good (turn : Turn) : Bool := 0 < turn.poll && turn.read.isSome

/-- How many bytes there are to read before `poll` or `read` fails. -/
def delivered (turns : List Turn) : Nat :=
  ((turns.takeWhile Turn.good).map fun turn => turn.read.getD 0).sum

/-- How `wait_packet` ends. -/
inductive Waiting where
  /-- A call failed: it returns 0. -/
  | failed
  /-- Nothing came for the time it waits: it returns 0. -/
  | silent
  /-- It has found `Symbol_Start`, and returns 1: what the environment does next, and what there is
  to read. -/
  | started (turns : List Turn) (stream : List UInt8)
  deriving DecidableEq, Repr

/-- `wait_packet`; `c` is its variable, which a `read` at the end of a file leaves as it is. -/
def waitPacket : List Turn → UInt8 → List UInt8 → Waiting
  | [], _, _ => .silent
  | turn :: turns, c, stream =>
    if turn.poll = 0 then .silent
    else if turn.poll < 0 then .failed
    else
      match turn.read with
      | none => .failed
      | some avail =>
        let got := stream.take (min avail 1)
        let c := got.head?.getD c
        if c = t.symbolStart then .started turns (stream.drop got.length)
        else waitPacket turns c (stream.drop got.length)

/-- `recv_packet`: the bytes it writes to `data`; it returns how many. It never looks at
`data_length`. -/
def recvPacket (turns : List Turn) (stream : List UInt8) : Except SymbolAbort (List UInt8) :=
  match t.recvLoop turns [] stream with
  | .stopped recv => t.symbolsToBytes (t.packetSymbols recv)
  | _ => .ok []

/-! ## The buffer of the sender -/

/-- What goes out is the head of the frame, and all of it if `send_packet` returns 1, whatever
`write` does. -/
theorem writeLoop_wire (frame : List UInt8) (n : Nat) (outcomes : List (Option Nat)) :
    (writeLoop frame n outcomes).2 <+: frame.drop n ∧
      ((writeLoop frame n outcomes).1 = some true →
        (writeLoop frame n outcomes).2 = frame.drop n) := by
  induction outcomes generalizing n with
  | nil =>
    rw [writeLoop]
    by_cases hn : n < frame.length
    · exact ⟨List.nil_prefix, by simp [hn]⟩
    · exact ⟨List.nil_prefix, fun _ => (List.drop_eq_nil_of_le (Nat.not_lt.mp hn)).symm⟩
  | cons outcome outcomes ih =>
    rw [writeLoop.eq_def]
    by_cases hn : n < frame.length
    · simp only [if_pos hn]
      cases outcome with
      | none => exact ⟨List.nil_prefix, by simp⟩
      | some k =>
        let e := min k (frame.length - n)
        obtain ⟨hfront, hall⟩ := ih (n + e)
        rw [← List.drop_drop] at hfront hall
        have hsplit := List.take_append_drop e (frame.drop n)
        constructor
        · calc (frame.drop n).take e ++ (writeLoop frame (n + e) outcomes).2
              <+: (frame.drop n).take e ++ (frame.drop n).drop e :=
                (List.prefix_append_right_inj _).mpr hfront
            _ = frame.drop n := hsplit
        · intro hdone
          show (frame.drop n).take e ++ (writeLoop frame (n + e) outcomes).2 = frame.drop n
          rw [hall hdone, hsplit]
    · simp only [if_neg hn]
      exact ⟨List.nil_prefix, fun _ => (List.drop_eq_nil_of_le (Nat.not_lt.mp hn)).symm⟩

variable {t}

/-- The frame has a fixed part and the symbols. -/
theorem sendFrame_ok {data : List UInt8} (h : data.length ≤ maxPacketBytes) :
    ∃ frame, t.sendFrame data = .ok frame ∧ frame.length =
      data.length + (data.length + (t.chunkBytes - 1)) / t.chunkBytes + 8 := by
  obtain ⟨symbols, hok, hlen⟩ := t.bytesToSymbols_ok data
  refine ⟨List.replicate preambleLen t.symbolStart ++ List.replicate uartsyncLen t.symbolSync ++
      symbols ++ List.replicate epilogueLen t.symbolEnd, ?_, ?_⟩
  · rw [sendFrame, if_neg (Nat.not_lt.mpr h), hok]
    rfl
  · simp only [List.length_append, List.length_replicate, hlen, preambleLen, uartsyncLen,
      epilogueLen]
    omega

/-- A packet that passes the assertion of `send_packet` fits the send buffer exactly when the
symbols have seven bits or it has at most 7022 bytes. -/
theorem sendFrame_fits_iff (t : SymbolTable) {data : List UInt8}
    (h : data.length ≤ maxPacketBytes) :
    ∃ frame, t.sendFrame data = .ok frame ∧
      (frame.length ≤ maxPacketSymbols ↔ 128 ≤ t.count ∨ data.length ≤ 7022) := by
  obtain ⟨frame, hok, hlen⟩ := sendFrame_ok (t := t) h
  refine ⟨frame, hok, ?_⟩
  have hmax : maxPacketBytes = 8192 := rfl
  have hbuffer : maxPacketSymbols = 9371 := by decide
  rw [hlen, hbuffer]
  by_cases hcount : t.count < 128
  · have hchunk : t.chunkBytes = 3 := if_pos hcount
    rw [hchunk]
    omega
  · have hchunk : t.chunkBytes = 7 := if_neg hcount
    rw [hchunk]
    omega

theorem sendFrame_fits_iff_serial : ∃ frame, serialSymbols.sendFrame [1, 2, 3] = .ok frame ∧
    (frame.length ≤ maxPacketSymbols ↔
      128 ≤ serialSymbols.count ∨ [(1 : UInt8), 2, 3].length ≤ 7022) :=
  sendFrame_fits_iff serialSymbols (by decide)

/-- With the six-bit symbols of the Makefile a packet of 7023 bytes is written past the end. -/
theorem sendFrame_overrun : ¬ ∀ data : List UInt8, data.length ≤ maxPacketBytes →
    ∀ frame, serialSymbols.sendFrame data = .ok frame → frame.length ≤ maxPacketSymbols := by
  intro hall
  have hlong : (List.replicate 7023 (0 : UInt8)).length ≤ maxPacketBytes := by
    rw [List.length_replicate]
    decide
  obtain ⟨frame, hok, hlen⟩ := sendFrame_ok (t := serialSymbols) hlong
  have hle := hall _ hlong frame hok
  have hchunk : serialSymbols.chunkBytes = 3 := if_pos (by rw [serialSymbols_count]; decide)
  rw [hlen, hchunk, List.length_replicate] at hle
  exact absurd hle (by decide)

/-! ## The buffer of the receiver -/

theorem delivered_cons_of_poll {turn : Turn} (h : turn.poll ≤ 0) (turns : List Turn) :
    delivered (turn :: turns) = 0 := by
  simp [delivered, Turn.good, Int.not_lt.mpr h]

theorem delivered_cons_of_read {turn : Turn} (h : turn.read = none) (turns : List Turn) :
    delivered (turn :: turns) = 0 := by
  simp [delivered, Turn.good, h]

theorem delivered_cons {turn : Turn} {avail : Nat} (hpoll : 0 < turn.poll)
    (hread : turn.read = some avail) (turns : List Turn) :
    delivered (turn :: turns) = avail + delivered turns := by
  simp [delivered, Turn.good, hpoll, hread]

/-- The reading loop stops at the first `Symbol_End` that there is room for and that comes in
before `poll` or `read` fails, wherever the reads are cut. -/
theorem recvLoop_eq_stopped_iff {turns : List Turn} {recv stream out : List UInt8} :
    t.recvLoop turns recv stream = .stopped out ↔
      ∃ front, beforeWithin t.symbolEnd (recvBufferLen - recv.length) stream = some front ∧
        front.length < delivered turns ∧ out = recv ++ front := by
  induction turns generalizing recv stream with
  | nil =>
    have hnever : t.recvLoop [] recv stream ≠ .stopped out := by
      rw [recvLoop]
      split
      · exact Reading.noConfusion
      · exact Reading.noConfusion
    simp [hnever, delivered]
  | cons turn turns ih =>
    rw [recvLoop]
    by_cases hfull : recvBufferLen ≤ recv.length
    · simp [hfull]
    rw [if_neg hfull]
    by_cases hpoll : turn.poll ≤ 0
    · simp [hpoll, delivered_cons_of_poll hpoll]
    rw [if_neg hpoll]
    cases hread : turn.read with
    | none => simp [delivered_cons_of_read hread]
    | some avail =>
      rw [delivered_cons (Int.not_le.mp hpoll) hread]
      let room := recvBufferLen - recv.length
      let got := stream.take (min avail room)
      have hgot : got.length = min (min avail room) stream.length := List.length_take
      have hroom : got.length ≤ room := by omega
      have hsplit : got ++ stream.drop got.length = stream :=
        List.prefix_iff_eq_append.mp (List.take_prefix ..)
      show (if t.symbolEnd ∈ got then Reading.stopped (recv ++ got.takeWhile (· ≠ t.symbolEnd))
        else t.recvLoop turns (recv ++ got) (stream.drop got.length)) = .stopped out ↔ _
      by_cases hmem : t.symbolEnd ∈ got
      · have hfound := beforeWithin_append_of_mem hmem (stream.drop got.length) hroom
        rw [hsplit] at hfound
        have hshort : (got.takeWhile (· ≠ t.symbolEnd)).length < avail + delivered turns := by
          have hlt := (beforeWithin_eq_some (beforeWithin_append_of_mem hmem [] le_rfl)).2.1
          omega
        rw [if_pos hmem, hfound]
        constructor
        · rintro ⟨⟩
          exact ⟨_, rfl, hshort, rfl⟩
        · rintro ⟨front, ⟨⟩, -, rfl⟩
          rfl
      · have hlater := beforeWithin_append_of_notMem hmem (stream.drop got.length) hroom
        rw [hsplit] at hlater
        rw [if_neg hmem, ih, hlater, List.length_append, Nat.sub_add_eq]
        constructor
        · rintro ⟨front, hfront, hlt, rfl⟩
          have hall : got.length ≤ avail := by omega
          exact ⟨got ++ front, by rw [hfront]; rfl, by rw [List.length_append]; omega,
            List.append_assoc ..⟩
        · rintro ⟨_, hfront, hlt, rfl⟩
          obtain ⟨front, hfirst, rfl⟩ := Option.map_eq_some_iff.mp hfront
          refine ⟨front, hfirst, ?_, (List.append_assoc ..).symm⟩
          -- a read that got less than there was has emptied the stream or filled the buffer
          obtain ⟨-, hbound, rest, hrest⟩ := beforeWithin_eq_some hfirst
          have hmore : 0 < (stream.drop got.length).length := by
            rw [hrest, List.length_append, List.length_cons]
            omega
          rw [List.length_drop] at hmore
          rw [List.length_append] at hlt
          omega

variable (t) in
/-- What `recv_packet` writes, and how much: one byte less than symbols for each chunk, full or not,
of what there is from the first valid symbol to `Symbol_End`. -/
theorem recvPacket_of_front {turns : List Turn} {stream front : List UInt8}
    (hfront : beforeWithin t.symbolEnd recvBufferLen stream = some front)
    (hlt : front.length < delivered turns) :
    ∃ bytes, t.recvPacket turns stream = .ok bytes ∧ bytes.length =
      (t.packetSymbols front).length -
        ((t.packetSymbols front).length + (t.chunkSyms - 1)) / t.chunkSyms := by
  obtain ⟨bytes, hok, hlen⟩ := t.symbolsToBytes_ok (t.packetSymbols front)
  have hstop : t.recvLoop turns [] stream = .stopped front :=
    recvLoop_eq_stopped_iff.mpr ⟨front, hfront, hlt, rfl⟩
  exact ⟨bytes, by rw [recvPacket, hstop]; exact hok, hlen⟩

variable (t) in
/-- What is in front of the first `Symbol_End` is decoded from the first valid symbol on. -/
theorem recvPacket_append_cons {front : List UInt8} (hnot : t.symbolEnd ∉ front)
    (hfits : front.length < recvBufferLen) {turns : List Turn}
    (hread : front.length < delivered turns) (rest : List UInt8) :
    t.recvPacket turns (front ++ t.symbolEnd :: rest) =
      t.symbolsToBytes (t.packetSymbols front) := by
  have hstop : t.recvLoop turns [] (front ++ t.symbolEnd :: rest) = .stopped front :=
    recvLoop_eq_stopped_iff.mpr ⟨front, beforeWithin_append_cons hnot rest hfits, hread, rfl⟩
  rw [recvPacket, hstop]

/-- Without a `Symbol_End` in time nothing is written. -/
theorem recvPacket_of_none {turns : List Turn} {stream : List UInt8}
    (h : ∀ front, beforeWithin t.symbolEnd recvBufferLen stream = some front →
      ¬ front.length < delivered turns) : t.recvPacket turns stream = .ok [] := by
  rw [recvPacket]
  split
  · rename_i out hstop
    obtain ⟨front, hfront, hlt, -⟩ := recvLoop_eq_stopped_iff.mp hstop
    exact absurd hlt (h front hfront)
  · rfl

variable (t) in
/-- How many symbols there may be for a number of bytes. -/
theorem decoded_le_iff (m dataLength : Nat) :
    m - (m + (t.chunkSyms - 1)) / t.chunkSyms ≤ dataLength ↔
      m ≤ dataLength + dataLength / t.chunkBytes + 1 := by
  rw [chunkSyms_eq]
  rcases t.width_cases with ⟨-, hc⟩ | ⟨-, hc⟩
  · rw [hc]
    omega
  · rw [hc]
    omega

/-- `recv_packet` keeps to the room that the caller has exactly when the `Symbol_End` it comes to,
if any, is not too far behind the first valid symbol. -/
theorem recvPacket_bound_iff (t : SymbolTable) (turns : List Turn) (stream : List UInt8)
    (dataLength : Nat) :
    ∃ bytes, t.recvPacket turns stream = .ok bytes ∧
      (bytes.length ≤ dataLength ↔
        ∀ front, beforeWithin t.symbolEnd recvBufferLen stream = some front →
          front.length < delivered turns →
            (t.packetSymbols front).length ≤ dataLength + dataLength / t.chunkBytes + 1) := by
  by_cases h : ∃ front, beforeWithin t.symbolEnd recvBufferLen stream = some front ∧
      front.length < delivered turns
  · obtain ⟨front, hfront, hlt⟩ := h
    obtain ⟨bytes, hok, hlen⟩ := t.recvPacket_of_front hfront hlt
    refine ⟨bytes, hok, ?_⟩
    rw [hlen, t.decoded_le_iff]
    constructor
    · rintro hle _ hfront' -
      rw [hfront] at hfront'
      cases hfront'
      exact hle
    · exact fun hle => hle front hfront hlt
  · have hnone : ∀ front, beforeWithin t.symbolEnd recvBufferLen stream = some front →
        ¬ front.length < delivered turns := fun front hfront hlt => h ⟨front, hfront, hlt⟩
    exact ⟨[], recvPacket_of_none hnone, fun _ front hfront hlt =>
      absurd hlt (hnone front hfront), fun _ => Nat.zero_le _⟩

/-- A long run of valid symbols overruns the buffer of `queue_receiver`, which has room for 1021
bytes. -/
theorem recvPacket_overrun : ∃ bytes,
    serialSymbols.recvPacket [⟨1, some 1401⟩]
      (List.replicate 1400 (serialSymbols.encode 0) ++ [serialSymbols.symbolEnd]) = .ok bytes ∧
      ¬ bytes.length ≤ 1021 := by
  have hdecode : serialSymbols.decode (serialSymbols.encode 0) = (0 : Nat) :=
    serialSymbols_inverse 0 (by rw [serialSymbols_bits]; decide)
  have hend : serialSymbols.decode serialSymbols.symbolEnd = -3 := serialSymbols_marked.stop
  have hnot : serialSymbols.symbolEnd ∉ List.replicate 1400 (serialSymbols.encode 0) := by
    intro hmem
    rw [List.eq_of_mem_replicate hmem, hdecode] at hend
    exact absurd hend (by decide)
  have hfront := beforeWithin_append_cons hnot [] (n := recvBufferLen)
    (by rw [List.length_replicate]; decide)
  have hlt : (List.replicate 1400 (serialSymbols.encode 0)).length <
      delivered [⟨1, some 1401⟩] := by
    rw [List.length_replicate]
    decide
  obtain ⟨bytes, hok, hlen⟩ := serialSymbols.recvPacket_of_front hfront hlt
  refine ⟨bytes, hok, ?_⟩
  have hvalid : serialSymbols.packetSymbols (List.replicate 1400 (serialSymbols.encode 0)) =
      List.replicate 1400 (serialSymbols.encode 0) := by
    rw [packetSymbols, List.replicate_succ, List.dropWhile_cons_of_neg]
    rw [symbolValid, hdecode]
    decide
  have hchunk : serialSymbols.chunkBytes = 3 := if_pos (by rw [serialSymbols_count]; decide)
  rw [hlen, decoded_le_iff, hvalid, hchunk, List.length_replicate]
  decide

/-! ## From the sender to the receiver -/

namespace Marked

variable (ht : t.Marked)
include ht

/-- `Symbol_End` is no data symbol. -/
theorem ne_symbolEnd {s : UInt8} (h : t.decode s ≠ -3) : t.symbolEnd ≠ s := by
  rintro rfl
  exact h ht.stop

/-- The first `Symbol_End` of a frame is behind the symbols. -/
theorem symbolEnd_notMem {symbols : List UInt8} (h : ∀ s ∈ symbols, t.symbolValid s = true) :
    t.symbolEnd ∉ List.replicate preambleLen t.symbolStart ++
      List.replicate uartsyncLen t.symbolSync ++ symbols := by
  intro hmem
  rcases List.mem_append.mp hmem with hmarks | hsymbols
  · rcases List.mem_append.mp hmarks with hstart | hsync
    · exact ht.ne_symbolEnd (by rw [ht.start]; decide) (List.eq_of_mem_replicate hstart)
    · exact ht.ne_symbolEnd (by rw [ht.sync]; decide) (List.eq_of_mem_replicate hsync)
  · have hvalid := h _ hsymbols
    rw [symbolValid, ht.stop] at hvalid
    exact absurd hvalid (by decide)

/-- The receiver skips the marks in front of the symbols. -/
theorem packetSymbols_frame {symbols : List UInt8} (h : ∀ s ∈ symbols, t.symbolValid s = true) :
    t.packetSymbols (List.replicate preambleLen t.symbolStart ++
      List.replicate uartsyncLen t.symbolSync ++ symbols) = symbols := by
  have hmarks : ∀ s ∈ List.replicate preambleLen t.symbolStart ++
      List.replicate uartsyncLen t.symbolSync, (!t.symbolValid s) = true := by
    intro s hs
    rcases List.mem_append.mp hs with hstart | hsync
    · rw [List.eq_of_mem_replicate hstart, symbolValid, ht.start]
      decide
    · rw [List.eq_of_mem_replicate hsync, symbolValid, ht.sync]
      decide
  rw [packetSymbols, List.dropWhile_append_of_pos hmarks]
  cases symbols with
  | nil => rfl
  | cons s symbols =>
    rw [List.dropWhile_cons_of_neg]
    rw [h s List.mem_cons_self]
    decide

end Marked

/-- A call of `send_packet` that returns 1 has sent the whole frame. -/
theorem sendFrame_of_sendPacket {data wire : List UInt8} {outcomes : List (Option Nat)}
    (h : t.sendPacket data outcomes = .ok (some true, wire)) : t.sendFrame data = .ok wire := by
  rw [sendPacket] at h
  cases hframe : t.sendFrame data with
  | error e =>
    rw [hframe] at h
    cases h
  | ok frame =>
    rw [hframe] at h
    have hloop : writeLoop frame 0 outcomes = (some true, wire) := Except.ok.inj h
    have hall := (writeLoop_wire frame 0 outcomes).2
    rw [hloop] at hall
    exact congrArg Except.ok (hall rfl).symm

/-- The symbols of a frame are between the marks. -/
theorem sendFrame_eq_ok {data frame : List UInt8} (h : t.sendFrame data = .ok frame) :
    ∃ symbols, t.bytesToSymbols data = .ok symbols ∧
      frame = List.replicate preambleLen t.symbolStart ++
        List.replicate uartsyncLen t.symbolSync ++ symbols ++
          List.replicate epilogueLen t.symbolEnd := by
  obtain ⟨symbols, hok, -⟩ := t.bytesToSymbols_ok data
  rw [sendFrame, hok] at h
  split at h
  · cases h
  · exact ⟨symbols, hok, (Except.ok.inj h).symm⟩

/-- A packet that `send_packet` has sent comes out of `recv_packet`, if its frame fits the buffers
and comes in before `poll` or `read` fails: however `write` and `read` cut it, whatever the line
holds behind it. -/
theorem recvPacket_sendPacket (ht : t.Marked) {data wire : List UInt8}
    {outcomes : List (Option Nat)} (hsent : t.sendPacket data outcomes = .ok (some true, wire))
    (hfits : wire.length ≤ maxPacketSymbols) {turns : List Turn}
    (hread : wire.length ≤ delivered turns) (rest : List UInt8) :
    t.recvPacket turns (wire ++ rest) = .ok data := by
  obtain ⟨symbols, hok, rfl⟩ := sendFrame_eq_ok (sendFrame_of_sendPacket hsent)
  have hvalid := symbolValid_of_mem_bytesToSymbols ht.inverse hok
  rw [List.length_append, List.length_replicate, show epilogueLen = 3 from rfl] at hfits hread
  have hbuffer : recvBufferLen = maxPacketSymbols := rfl
  rw [List.append_assoc]
  calc t.recvPacket turns (_ ++ (List.replicate epilogueLen t.symbolEnd ++ rest))
      = t.symbolsToBytes (t.packetSymbols (List.replicate preambleLen t.symbolStart ++
          List.replicate uartsyncLen t.symbolSync ++ symbols)) :=
        t.recvPacket_append_cons (ht.symbolEnd_notMem hvalid) (by omega) (by omega) _
    _ = t.symbolsToBytes symbols := by rw [ht.packetSymbols_frame hvalid]
    _ = .ok data := symbolsToBytes_bytesToSymbols ht.inverse hok

/-! ## Waiting for a packet -/

end SymbolTable

end OldRadio.First
