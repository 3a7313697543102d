import OldRadio.Library.Framing
import OldRadio.Second.RadioLink

/-!
# Receiving a whole stream

A program that receives alternates `radio_wait` and `radio_recv` until the stream
is exhausted or an assertion fails. `radio_wait` reads byte by byte, `radio_recv`
in bulk, and what its last read takes behind the stop mark is lost. Without
timeouts the packets of a stream are those of a lossy receiver of frames, every
loss is caused by some grouping of the bytes, and so grouping makes no difference
exactly for the streams where no start mark that can be lost matters.
-/

namespace OldRadio.Second

open Library

/-- The frames of the radio link. -/
def radioFraming : Framing UInt8 Abort Packet where
  start := symbolStart
  stop := symbolEnd
  start_ne_stop := by decide
  cap := maxFrame
  cap_pos := by decide
  decode := decodeFrame

/-- Up to `fuel` turns of `radio_wait` and `radio_recv`: the packets, and the assertion that
stopped the program. -/
def receiveLoop (timeout : VTime) : Nat → Port → List (Except Abort Packet)
  | 0, _ => []
  | fuel + 1, port =>
    match radioWait timeout port with
    | (false, _) => []
    | (true, port) =>
      match radioRecv timeout port with
      | (result, port) => carry result (receiveLoop timeout fuel port)

/-- Alternating `radio_wait` and `radio_recv` until the stream is exhausted. Each turn takes at
least the start mark. -/
def receiveAll (timeout : VTime) (port : Port) : List (Except Abort Packet) :=
  receiveLoop timeout (port.stream.length + 1) port

/-! ## One turn -/

/-- Without a start mark nothing is received. -/
theorem receiveLoop_of_notMem {timeout : VTime} {fuel : Nat} {port : Port}
    (h : symbolStart ∉ port.stream) : receiveLoop timeout fuel port = [] := by
  cases fuel with
  | zero => rfl
  | succ fuel =>
    rw [receiveLoop]
    rcases hwait : radioWait timeout port with ⟨heard, port'⟩
    cases heard with
    | false => rfl
    | true =>
      obtain ⟨noise, -, hstream⟩ := radioWait_true hwait
      exact absurd (hstream ▸ List.mem_append_right noise List.mem_cons_self) h

/-- Behind noise and a start mark a turn receives a frame. -/
theorem receiveLoop_start {timeout : VTime} {port : Port} {noise rest : List UInt8} (fuel : Nat)
    (hp : port.Prompt timeout) (hn : symbolStart ∉ noise)
    (hs : port.stream = noise ++ symbolStart :: rest) :
    ∃ port' : Port, port'.stream = rest ∧ port'.turns = port.turns ∧
      port'.turn = port.turn + (noise.length + 1) ∧
      receiveLoop timeout (fuel + 1) port =
        carry (radioRecv timeout port').1
          (receiveLoop timeout fuel (radioRecv timeout port').2) := by
  obtain ⟨port', hwait, hrest, hturns, hturn⟩ := waitLoop_prompt (port.stream.length + 1) hp hn hs
    (by rw [hs, List.length_append]; omega)
  refine ⟨port', hrest, hturns, hturn, ?_⟩
  rw [receiveLoop, radioWait, hwait]

/-- Without timeouts `radio_recv` decodes the first frame, and takes more than that frame off the
stream, or as much as it can hold if there is none. -/
theorem radioRecv_rest {timeout : VTime} {port : Port} (hp : port.Prompt timeout) :
    ∃ j port', radioRecv timeout port =
        ((firstFrame port.stream).elim (.ok none) decodeFrame, port') ∧
      port'.stream = port.stream.drop j ∧ port'.turns = port.turns ∧ j ≤ maxFrame ∧
      (firstFrame port.stream = none → j = maxFrame) ∧
      ∀ recv, firstFrame port.stream = some recv → recv.length < j := by
  have hfuel : maxFrame - ([] : List UInt8).length < maxFrame + 1 := Nat.lt_succ_self maxFrame
  obtain ⟨j, hj, hturns, hle, hnone, hsome⟩ := recvLoop_rest hp hfuel
  rw [recvLoop_firstFrame_prompt hp, List.length_nil] at hnone hsome
  refine ⟨j, _, ?_, hj, hturns, hle, hnone, fun recv h => ?_⟩
  · rw [radioRecv_eq, recvLoop_firstFrame_prompt hp]
  · have hlen := hsome recv h
    omega

/-- Without timeouts what is received is what a lossy receiver may get. -/
theorem receiveLoop_lossy {timeout : VTime} {fuel : Nat} {port : Port} (hp : port.Prompt timeout)
    (hfuel : port.stream.length < fuel) :
    radioFraming.Lossy port.stream (receiveLoop timeout fuel port) := by
  induction fuel generalizing port with
  | zero => omega
  | succ fuel ih =>
    by_cases hmem : symbolStart ∈ port.stream
    · obtain ⟨noise, rest, hstream, hnoise⟩ := List.eq_append_cons_of_mem hmem
      obtain ⟨port₁, hrest, hturns, -, hturn⟩ := receiveLoop_start fuel hp hnoise hstream
      obtain ⟨j, port₂, hrecv, hj, ht, hle, hnone, hsome⟩ := radioRecv_rest (hp.of_turns_eq hturns)
      have hless : port₂.stream.length < fuel := by
        rw [hstream, List.length_append, List.length_cons] at hfuel
        rw [hj, hrest, List.length_drop]
        omega
      have hlast := ih ((hp.of_turns_eq hturns).of_turns_eq ht) hless
      rw [hrest] at hrecv hj hnone hsome
      rw [hj] at hlast
      rw [hturn, hstream, hrecv]
      cases hframe : firstFrame rest with
      | none =>
        obtain rfl : j = maxFrame := hnone hframe
        exact .overrun hnoise hframe hlast
      | some recv => exact .frame j hnoise hframe (hsome recv hframe) hle hlast
    · rw [receiveLoop_of_notMem hmem]
      exact .idle hmem

/-! ## Every loss has a grouping -/

/-- The sizes of the reads of a turn: byte by byte up to the start mark, then `j` bytes, then the
sizes of the turns behind it. -/
def turnReads (noise j : Nat) (behind : Nat → Nat) (k : Nat) : Nat :=
  if k = noise + 1 then j else behind (k - (noise + 2))

/-- One read of `j` bytes that reaches the stop mark loses what it takes behind the mark. -/
theorem radioRecv_loses {timeout : VTime} {port : Port} {recv : List UInt8} {j : Nat}
    (hp : port.Prompt timeout) (hframe : firstFrame port.stream = some recv)
    (hj : recv.length < j) (hcap : j ≤ maxFrame) (havail : port.current.avail = j) :
    ∃ port', radioRecv timeout port = (decodeFrame recv, port') ∧
      port'.stream = port.stream.drop j ∧ port'.turns = port.turns ∧
      port'.turn = port.turn + 1 := by
  obtain ⟨hstop, hlen, tail, hstream⟩ := beforeWithin_eq_some hframe
  have hne : port.stream ≠ [] := by
    rw [hstream]
    exact List.append_ne_nil_of_right_ne_nil _ (List.cons_ne_nil _ _)
  have hcount : port.readCount (maxFrame - ([] : List UInt8).length) = j := by
    rw [Port.readCount, havail, List.length_nil]
    omega
  have hroom : ([] : List UInt8).length < maxFrame := by decide
  obtain ⟨port', hrest, hturns, hturn, htakes⟩ :=
    recvLoop_takes maxFrame hroom (hp port.turn).2.2 (hp port.turn).1 hne
  rw [hcount] at hrest htakes
  have htake : port.stream.take j = recv ++ symbolEnd :: tail.take (j - recv.length - 1) := by
    obtain ⟨i, rfl⟩ : ∃ i, j = recv.length + (i + 1) := ⟨j - recv.length - 1, by omega⟩
    rw [hstream, List.take_length_add_append, List.take_succ_cons]
    congr 3
    omega
  have hwhile : (port.stream.take j).takeWhile (· ≠ symbolEnd) = recv := by
    rw [htake, List.takeWhile_append_of_pos fun b hb => ?_]
    · simp
    · exact decide_eq_true fun h => hstop (h ▸ hb)
  have hmem : symbolEnd ∈ port.stream.take j := by
    rw [htake]
    exact List.mem_append_right _ List.mem_cons_self
  refine ⟨port', ?_, hrest, hturns, hturn⟩
  rw [radioRecv, htakes, if_pos hmem, hwhile, List.nil_append]

/-- One read of as much as the buffer holds skips that much if there is no frame. -/
theorem radioRecv_skips {timeout : VTime} {port : Port} (hp : port.Prompt timeout)
    (hframe : firstFrame port.stream = none) (havail : port.current.avail = maxFrame) :
    ∃ port', radioRecv timeout port = (.ok none, port') ∧
      port'.stream = port.stream.drop maxFrame ∧ port'.turns = port.turns ∧
      (port'.stream ≠ [] → port'.turn = port.turn + 1) := by
  obtain ⟨j, port', hrecv, hj, hturns, -, hnone, -⟩ := radioRecv_rest hp
  rw [hframe, Option.elim_none] at hrecv
  obtain rfl : j = maxFrame := hnone hframe
  refine ⟨port', hrecv, hj, hturns, fun hmore => ?_⟩
  have hlong : maxFrame < port.stream.length := by
    by_contra hshort
    exact hmore (hj.trans (List.drop_eq_nil_of_le (by omega)))
  have hne : port.stream ≠ [] := fun hnil => by simp [hnil] at hlong
  have hroom : ([] : List UInt8).length < maxFrame := by decide
  have hcount : port.readCount (maxFrame - ([] : List UInt8).length) = maxFrame := by
    rw [Port.readCount, havail, List.length_nil]
    omega
  obtain ⟨port₁, hrest, -, hturn, htakes⟩ :=
    recvLoop_takes maxFrame hroom (hp port.turn).2.2 (hp port.turn).1 hne
  rw [hcount] at hrest htakes
  have hfull : maxFrame ≤ ([] ++ port.stream.take maxFrame).length := by
    rw [List.nil_append, List.length_take_of_le hlong.le]
  have hmem : symbolEnd ∉ port.stream.take maxFrame := fun hmem => by
    have hfound := beforeWithin_append_of_mem hmem (port.stream.drop maxFrame)
      (List.length_take_le ..)
    rw [List.take_append_drop] at hfound
    rw [firstFrame, hfound] at hframe
    cases hframe
  rw [if_neg hmem, recvLoop_full maxFrame hfull] at htakes
  rw [radioRecv, htakes] at hrecv
  rw [← (Prod.mk.inj hrecv).2, hturn]

/-- Whatever a lossy receiver may get is received by every prompt port whose reads have the right
sizes. -/
theorem exists_reads_of_lossy {stream : List UInt8} {l : List (Except Abort Packet)}
    (h : radioFraming.Lossy stream l) :
    ∃ avail : Nat → Nat, ∀ timeout fuel (port : Port), port.Prompt timeout →
      port.stream = stream → (∀ k, (port.turns (port.turn + k)).avail = avail k) →
      stream.length < fuel → receiveLoop timeout fuel port = l := by
  induction h with
  | idle hidle =>
    exact ⟨fun _ => 0, fun _ _ port _ hs _ _ => receiveLoop_of_notMem (hs ▸ hidle)⟩
  | @overrun noise rest l hnoise hframe hlossy ih =>
    obtain ⟨behind, hbehind⟩ := ih
    refine ⟨turnReads noise.length maxFrame behind, fun timeout fuel port hp hs havail hfuel => ?_⟩
    obtain ⟨fuel, rfl⟩ : ∃ k, fuel = k + 1 := ⟨fuel - 1, by omega⟩
    obtain ⟨port₁, hrest, hturns, hturn, hloop⟩ := receiveLoop_start fuel hp hnoise hs
    have hp₁ := hp.of_turns_eq hturns
    have hread : port₁.current.avail = maxFrame := by
      rw [Port.current, hturns, hturn, havail, turnReads, if_pos rfl]
    obtain ⟨port₂, hrecv, hdrop, ht, hmore⟩ := radioRecv_skips hp₁ (hrest ▸ hframe) hread
    rw [hrest] at hdrop
    rw [hloop, hrecv, carry_ok_none]
    rcases eq_or_ne port₂.stream [] with hnil | hne
    · have hidle : symbolStart ∉ port₂.stream := hnil ▸ List.not_mem_nil
      rw [receiveLoop_of_notMem hidle, hlossy.eq_nil (hdrop ▸ hidle)]
    · have hlater : ∀ k, (port₂.turns (port₂.turn + k)).avail = behind k := fun k => by
        rw [ht, hturns, hmore hne, hturn, Nat.add_assoc, Nat.add_assoc, havail, turnReads,
          if_neg (by omega)]
        congr 1
        omega
      have hless : (rest.drop maxFrame).length < fuel := by
        rw [List.length_append, List.length_cons] at hfuel
        rw [List.length_drop]
        omega
      exact hbehind timeout fuel port₂ (hp₁.of_turns_eq ht) hdrop hlater hless
  | @frame noise rest recv l j hnoise hframe hj hcap _ ih =>
    obtain ⟨behind, hbehind⟩ := ih
    refine ⟨turnReads noise.length j behind, fun timeout fuel port hp hs havail hfuel => ?_⟩
    obtain ⟨fuel, rfl⟩ : ∃ k, fuel = k + 1 := ⟨fuel - 1, by omega⟩
    obtain ⟨port₁, hrest, hturns, hturn, hloop⟩ := receiveLoop_start fuel hp hnoise hs
    have hp₁ := hp.of_turns_eq hturns
    have hread : port₁.current.avail = j := by
      rw [Port.current, hturns, hturn, havail, turnReads, if_pos rfl]
    obtain ⟨port₂, hrecv, hdrop, ht, hnext⟩ := radioRecv_loses hp₁ (hrest ▸ hframe) hj hcap hread
    have hlater : ∀ k, (port₂.turns (port₂.turn + k)).avail = behind k := fun k => by
      rw [ht, hturns, hnext, hturn, Nat.add_assoc, Nat.add_assoc, havail, turnReads,
        if_neg (by omega)]
      congr 1
      omega
    have hless : (rest.drop j).length < fuel := by
      rw [List.length_append, List.length_cons] at hfuel
      rw [List.length_drop]
      omega
    rw [hloop, hrecv, hbehind timeout fuel port₂ (hp₁.of_turns_eq ht) (hrest ▸ hdrop) hlater hless]
    rfl

/-- Whatever a lossy receiver may get is received for some grouping of the bytes. -/
theorem exists_promptPort_of_lossy {stream : List UInt8} {l : List (Except Abort Packet)}
    (h : radioFraming.Lossy stream l) :
    ∃ avail, receiveAll 1000 (promptPort stream avail) = l := by
  obtain ⟨avail, havail⟩ := exists_reads_of_lossy h
  refine ⟨avail, havail 1000 (stream.length + 1) _ (promptPort_prompt stream avail) rfl
    (fun k => ?_) (Nat.lt_succ_self _)⟩
  exact congrArg avail (Nat.zero_add k)

/-- Without timeouts, what is received from a stream is the same for every two ways to group its
bytes exactly when no start mark that can be lost with the end of a read matters. -/
theorem receiveAll_grouping_iff (stream : List UInt8) :
    (∀ timeout (port port' : Port), port.Prompt timeout → port'.Prompt timeout →
      port.stream = stream → port'.stream = stream →
      receiveAll timeout port = receiveAll timeout port') ↔
    radioFraming.Recoverable stream := by
  rw [← Framing.lossy_unique_iff]
  constructor
  · intro h l l' hl hl'
    obtain ⟨avail, rfl⟩ := exists_promptPort_of_lossy hl
    obtain ⟨avail', rfl⟩ := exists_promptPort_of_lossy hl'
    exact h 1000 _ _ (promptPort_prompt _ _) (promptPort_prompt _ _) rfl rfl
  · intro h timeout port port' hp hp' hs hs'
    apply h
    · exact hs ▸ receiveLoop_lossy hp (Nat.lt_succ_self _)
    · exact hs' ▸ receiveLoop_lossy hp' (Nat.lt_succ_self _)

/-- The frame of the one-byte packet `00`, twice. -/
def backToBack : List UInt8 :=
  [0x55, 0x55, 0x55, 0xFF, 0xFF, 0xF7, 0x6D, 0xEF, 0xEF, 0xAA, 0xAA, 0xAA,
    0x55, 0x55, 0x55, 0xFF, 0xFF, 0xF7, 0x6D, 0xEF, 0xEF, 0xAA, 0xAA, 0xAA]

/-- Reads of 64 bytes lose the second of two frames that reads of one byte find. -/
theorem receiveAll_backToBack :
    ¬ ∀ (stream : List UInt8) timeout (port port' : Port), port.Prompt timeout →
      port'.Prompt timeout → port.stream = stream → port'.stream = stream →
      receiveAll timeout port = receiveAll timeout port' := by
  intro h
  have hsame := h backToBack 1000 (promptPort backToBack fun _ => 1)
    (promptPort backToBack fun _ => 64) (promptPort_prompt _ _) (promptPort_prompt _ _) rfl rfl
  have hboth : (receiveAll 1000 (promptPort backToBack fun _ => 1)).length = 2 := by
    decide +kernel
  have hone : (receiveAll 1000 (promptPort backToBack fun _ => 64)).length = 1 := by
    decide +kernel
  rw [hsame, hone] at hboth
  omega

end OldRadio.Second
