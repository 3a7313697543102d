import OldRadio.Second.Codec
import OldRadio.Second.Receive

/-!
# The radio link end to end

A packet that fits the link comes back unchanged through any cut of the stream
in both directions. Frames that no sender produced are decoded too: they may
write past the packet buffer, and a symbol outside the table enters the sum as
a negative digit, so a frame with broken symbols is rejected only when the
bytes its signed numeral spells fail the checksum.
-/

namespace OldRadio.Second

open Library

/-! ## Round trip -/

/-- The data part of a frame: the symbols of the packet and its checksum. -/
def frameData (data : List UInt8) : List UInt8 :=
  bytesToSymbols (data ++ [(crc16 data &&& 0xFF).toUInt8, (crc16 data >>> 8).toUInt8])

/-- The frame of a packet within the MTU, part by part. -/
theorem radioFrame_eq {packet : Packet} (h : packet.data.length ≤ radioMtu) :
    radioFrame packet = .ok (symbolStart :: ([symbolStart, symbolStart, symbolSync, symbolSync] ++
      frameData packet.data ++ [symbolEnd, symbolEnd, symbolEnd])) := by
  have hmtu : ¬ radioMtu < packet.data.length := by omega
  have hset : crc16Set (packet.data ++ List.replicate crc16Len 0) = _ :=
    crc16Set_append packet.data 0 0
  simp only [radioFrame, hmtu, if_false, hset]
  rfl

/-- A frame fits in both frame buffers, with its stop mark within the receiver's reach. -/
theorem length_frameData_le {data : List UInt8} (h : data.length ≤ radioMtu) :
    (frameData data).length + 8 ≤ maxFrame := by
  have hlen : (frameData data).length = _ := length_bytesToSymbols _
  simp only [List.length_append, List.length_cons, List.length_nil] at hlen
  simp only [maxFrame, radioMtu, preambleLen, uartsyncLen, epilogueLen] at h ⊢
  omega

theorem symbolValid_of_mem_frameData {data : List UInt8} :
    ∀ s ∈ frameData data, symbolValid s = true :=
  symbolValid_of_mem_bytesToSymbols

/-- Skipping reserved symbols in front of data symbols stops at the first data symbol. -/
theorem frameSymbols_of_reserved (front symbols : List UInt8)
    (hf : ∀ s ∈ front, symbolValid s = false) (hs : ∀ s ∈ symbols, symbolValid s = true) :
    frameSymbols (front ++ symbols) = symbols := by
  rw [frameSymbols, List.dropWhile_append_of_pos (fun s h => by simp [hf s h])]
  cases symbols with
  | nil => rfl
  | cons s symbols =>
    rw [List.dropWhile_cons_of_neg]
    simp [hs s (List.mem_cons_self ..)]

/-- Decoding the received part of a frame returns its packet, held once. -/
theorem decodeFrame_frameData {data : List UInt8} (hne : data ≠ []) :
    decodeFrame ([symbolStart, symbolStart, symbolSync, symbolSync] ++ frameData data) =
      .ok (some { refcount := 1, data }) := by
  have hbytes : packetBytes ([symbolStart, symbolStart, symbolSync, symbolSync] ++ frameData data) =
      data ++ [(crc16 data &&& 0xFF).toUInt8, (crc16 data >>> 8).toUInt8] := by
    rw [packetBytes, frameSymbols_of_reserved _ _ (by decide +kernel) symbolValid_of_mem_frameData,
      frameData, symbolsToBytes_bytesToSymbols]
  have hcheck := crc16Check_crc16Set (crc16Set_append data 0 0)
  have htake : (data ++ [(crc16 data &&& 0xFF).toUInt8, (crc16 data >>> 8).toUInt8]).take
      ((data ++ [(crc16 data &&& 0xFF).toUInt8, (crc16 data >>> 8).toUInt8]).length - crc16Len) =
      data := by
    simp [crc16Len]
  simp only [decodeFrame, hbytes, hcheck, if_true, htake, packetNew_of_ne_nil hne]
  rfl

/-- The first frame of a stream of marks, data symbols and a stop mark is in front of that. -/
theorem firstFrame_of_valid {symbols : List UInt8} (hvalid : ∀ s ∈ symbols, symbolValid s = true)
    (hlen : symbols.length + 8 ≤ maxFrame) (garbage : List UInt8) :
    firstFrame ([symbolStart, symbolStart, symbolSync, symbolSync] ++ symbols ++
        [symbolEnd, symbolEnd, symbolEnd] ++ garbage) =
      some ([symbolStart, symbolStart, symbolSync, symbolSync] ++ symbols) := by
  have hnotEnd : symbolEnd ∉ [symbolStart, symbolStart, symbolSync, symbolSync] ++ symbols := by
    intro hmem
    rcases List.mem_append.mp hmem with h | h
    · exact absurd h (by decide)
    · exact absurd (hvalid _ h) (by decide)
  rw [firstFrame, List.append_assoc]
  apply beforeWithin_append_cons hnotEnd
  simp only [List.length_append, List.length_cons, List.length_nil]
  omega

/-- Behind a start mark the receiver finds the rest of the frame and decodes its packet. -/
theorem radioRecv_frame {timeout : VTime} {port : Port} {data garbage : List UInt8}
    (hp : port.Prompt timeout) (hne : data ≠ []) (hmtu : data.length ≤ radioMtu)
    (hs : port.stream = [symbolStart, symbolStart, symbolSync, symbolSync] ++ frameData data ++
      [symbolEnd, symbolEnd, symbolEnd] ++ garbage) :
    (radioRecv timeout port).1 = .ok (some { refcount := 1, data }) := by
  have hframe := firstFrame_of_valid symbolValid_of_mem_frameData (length_frameData_le hmtu) garbage
  rw [← hs] at hframe
  rw [radioRecv_prompt hp, hframe]
  exact decodeFrame_frameData hne

/-- A packet within the MTU crosses the link: sending writes one frame that fits
the buffers, in whatever portions, and receiving it behind any noise without a
start mark returns the same bytes, in whatever pieces they arrive. -/
theorem radioLink_roundTrip {packet : Packet} (hpos : 1 ≤ packet.data.length)
    (hmtu : packet.data.length ≤ radioMtu) :
    ∃ frame, radioFrame packet = .ok frame ∧ frame.length ≤ maxFrame ∧
      (∀ outcomes, ∃ done wire, radioSend packet outcomes = .ok (done, wire) ∧
        wire <+: frame ∧ (done = true ↔ wire = frame) ∧
        (frame.length ≤ outcomes.countP progresses → done = true)) ∧
      ∀ timeout (port : Port) noise garbage, port.Prompt timeout → symbolStart ∉ noise →
        port.stream = noise ++ frame ++ garbage →
        ∃ port', radioWait timeout port = (true, port') ∧
          (radioRecv timeout port').1 = .ok (some { refcount := 1, data := packet.data }) := by
  have hne : packet.data ≠ [] := by
    intro h
    simp [h] at hpos
  refine ⟨_, radioFrame_eq hmtu, ?_, ?_, ?_⟩
  · have hlen := length_frameData_le hmtu
    simp only [List.length_append, List.length_cons, List.length_nil]
    omega
  · intro outcomes
    generalize hframe : symbolStart :: ([symbolStart, symbolStart, symbolSync, symbolSync] ++
      frameData packet.data ++ [symbolEnd, symbolEnd, symbolEnd]) = frame
    obtain ⟨hle, hwire⟩ := writeLoop_prefix frame 0 outcomes (Nat.zero_le _)
    rw [List.take_zero] at hle hwire
    refine ⟨_, _, by rw [radioSend, radioFrame_eq hmtu, hframe]; rfl, ?_, ?_, ?_⟩
    · rw [hwire]
      exact List.take_prefix _ _
    · rw [decide_eq_true_eq, hwire, List.take_eq_self_iff]
    · intro hprogress
      rw [decide_eq_true_eq]
      exact writeLoop_done frame [] 0 outcomes (by omega)
  · intro timeout port noise garbage hp hn hs
    obtain ⟨port', hwait, hrest, hturns, -⟩ := waitLoop_prompt (port.stream.length + 1) hp hn
      (by rw [hs, List.append_assoc]; rfl) (by rw [hs]; simp only [List.length_append]; omega)
    exact ⟨port', hwait, radioRecv_frame (hp.of_turns_eq hturns) hne hmtu hrest⟩

/-- A port whose every turn reads the clock at zero, finds data, and reads `avail k` bytes. -/
def promptPort (stream : List UInt8) (avail : Nat → Nat) : Port where
  stream := stream
  turns k := { now := 0, ready := true, avail := avail k }

theorem promptPort_prompt (stream : List UInt8) (avail : Nat → Nat) :
    (promptPort stream avail).Prompt 1000 := fun _ =>
  ⟨rfl, show (0 : VTime) ≤ 1000 by decide, show 1 ≤ timeoutMs 1000 0 by decide⟩

/-- One payload byte, a failing and a splitting writer, noise, garbage, and reads of two bytes. -/
theorem radioLink_roundTrip_zeroByte :
    (∃ frame, radioFrame { refcount := 1, data := [0] } = .ok frame ∧
      radioSend { refcount := 1, data := [0] } (none :: List.replicate 12 (some 1)) =
        .ok (true, frame)) ∧
    ∃ port', radioWait 1000 (promptPort ([1, 2] ++
          [0x55, 0x55, 0x55, 0xFF, 0xFF, 0xF7, 0x6D, 0xEF, 0xEF, 0xAA, 0xAA, 0xAA] ++
          [3]) fun _ => 2) =
        (true, port') ∧
      (radioRecv 1000 port').1 = .ok (some { refcount := 1, data := [0] }) := by
  obtain ⟨frame, hframe, _, hsend, hrecv⟩ :=
    @radioLink_roundTrip { refcount := 1, data := [0] } (by decide) (by decide)
  have hbytes : [0x55, 0x55, 0x55, 0xFF, 0xFF, 0xF7, 0x6D, 0xEF, 0xEF, 0xAA, 0xAA, 0xAA] = frame :=
    Except.ok.inj (Eq.trans (by decide +kernel) hframe)
  subst hbytes
  refine ⟨⟨_, hframe, ?_⟩, hrecv 1000 _ [1, 2] [3] (promptPort_prompt _ _) (by decide) rfl⟩
  obtain ⟨done, wire, hrun, _, hiff, hdone⟩ := hsend (none :: List.replicate 12 (some 1))
  have hd := hdone (by decide)
  rw [hrun, hd, hiff.mp hd]

/-! ## The packet buffer -/

/-- The most symbols that decode into `RADIO_MTU + CRC16_LEN` bytes. -/
def maxSymbols : Nat := 1831

/-- The decoder writes within the packet buffer up to `maxSymbols` symbols and past it from then
on. -/
theorem length_packetBytes_le_iff (recv : List UInt8) :
    (packetBytes recv).length ≤ radioMtu + crc16Len ↔
      (frameSymbols recv).length ≤ maxSymbols := by
  rw [packetBytes, length_symbolsToBytes]
  simp only [radioMtu, crc16Len, maxSymbols]
  omega

/-- For every stream and every way `read` splits it: no run of `radio_recv` writes
past `packet_buffer` exactly when the first frame of the stream has at most
`maxSymbols` symbols from its first valid one on. -/
theorem packetBuffer_bound_iff (stream : List UInt8) (avail : Nat → Nat) :
    (∀ timeout (port : Port) recv, port.stream = stream →
      (∀ k, (port.turns k).avail = avail k) →
      (recvLoop timeout (maxFrame + 1) [] port).1 = some recv →
      (packetBytes recv).length ≤ radioMtu + crc16Len) ↔
    ∀ recv, firstFrame stream = some recv → (frameSymbols recv).length ≤ maxSymbols := by
  constructor
  · intro h recv hframe
    rw [← length_packetBytes_le_iff]
    refine h 1000 (promptPort stream avail) recv rfl (fun _ => rfl) ?_
    rw [recvLoop_firstFrame_prompt (promptPort_prompt _ _)]
    exact hframe
  · intro h timeout port recv hs _ hrecv
    rw [length_packetBytes_le_iff]
    exact h recv (hs ▸ recvLoop_firstFrame hrecv)

/-- One symbol more than fits, all of them data symbols, and a stop mark. -/
def longStream : List UInt8 := List.replicate (maxSymbols + 1) 0xF7 ++ [symbolEnd]

/-- Reading `longStream` writes past the packet buffer. -/
theorem packetBuffer_overrun :
    ¬ ∀ (stream : List UInt8) timeout (port : Port) recv, port.stream = stream →
      (recvLoop timeout (maxFrame + 1) [] port).1 = some recv →
      (packetBytes recv).length ≤ radioMtu + crc16Len := by
  intro h
  have hmem : ∀ s ∈ List.replicate (maxSymbols + 1) (0xF7 : UInt8), s = 0xF7 := fun s hs =>
    List.eq_of_mem_replicate hs
  have hframe : firstFrame longStream = some (List.replicate (maxSymbols + 1) 0xF7) := by
    apply beforeWithin_append_cons
    · intro hs
      exact absurd (hmem _ hs) (by decide)
    · rw [List.length_replicate]
      decide
  have hfit := h longStream 1000 (promptPort longStream fun _ => 1) _ rfl
    ((recvLoop_firstFrame_prompt (promptPort_prompt _ _)).trans hframe)
  rw [length_packetBytes_le_iff] at hfit
  have hsymbols := frameSymbols_of_reserved [] (List.replicate (maxSymbols + 1) 0xF7) (by simp)
    fun s hs => by rw [hmem s hs]; decide
  rw [List.nil_append] at hsymbols
  rw [hsymbols, List.length_replicate] at hfit
  omega

/-! ## Broken symbols -/

/-- The bytes that one group of symbols spells when a symbol outside the table is
a negative digit: its base-128 numeral, in base 256, over one byte less. -/
def spelledGroup (symbols : List UInt8) : List UInt8 :=
  (fixedDigits 256 (symbols.length - 1)
    (signedValue 128 (symbols.map symbolDecode) % 256 ^ (symbols.length - 1)).toNat).map UInt8.ofNat

/-- The bytes a symbol string spells, group of eight by group of eight. -/
def spelledBytes (symbols : List UInt8) : List UInt8 := (pieces 8 symbols).flatMap spelledGroup

/-- The machine sum of sign-extended values and the signed numeral agree in the bytes kept. -/
theorem s2b_eq_spelledGroup {symbols : List UInt8} (h8 : symbols.length ≤ 8) :
    s2b symbols = spelledGroup symbols := by
  by_cases h2 : symbols.length < 2
  · have hz : symbols.length - 1 = 0 := by omega
    simp [s2b, h2, spelledGroup, hz]
  · rw [s2b_eq (by omega) h8, spelledGroup]
    congr 1
    apply fixedDigits_congr
    have hword : ((Nat.ofDigits 128 (symbols.map symbolResidue) : ℕ) : ℤ) ≡
        signedValue 128 (symbols.map symbolDecode) [ZMOD 2 ^ 64] := by
      have hcast := signedValue_natCast 128 (symbols.map symbolResidue)
      rw [List.map_map] at hcast
      rw [← hcast]
      apply signedValue_modEq
      intro s _
      rw [Function.comp_apply, symbolResidue_emod]
      exact Int.mod_modEq _ _
    have hdvd : (256 : ℤ) ^ (symbols.length - 1) ∣ 2 ^ 64 := by
      rw [show (2 : ℤ) ^ 64 = 256 ^ 8 by decide]
      exact pow_dvd_pow _ (by omega)
    have hmod := hword.of_dvd hdvd
    have hpos : (0 : ℤ) < 256 ^ (symbols.length - 1) := by positivity
    rw [← Int.natCast_inj, Int.natCast_emod, Int.natCast_emod, Nat.cast_pow, Nat.cast_ofNat,
      Int.toNat_of_nonneg (Int.emod_nonneg _ hpos.ne'), Int.emod_emod_of_dvd _ dvd_rfl]
    exact hmod

/-- The decoder's bytes are the ones the symbols spell. -/
theorem symbolsToBytes_eq_spelledBytes (symbols : List UInt8) :
    symbolsToBytes symbols = spelledBytes symbols := by
  induction symbols using chunkInduction (k := 8) (by decide) with
  | short l h =>
    rw [symbolsToBytes_short h, s2b_eq_spelledGroup h.le]
    rcases eq_or_ne l [] with rfl | hne
    · rfl
    · rw [spelledBytes, pieces_short hne h.le, List.flatMap_cons, List.flatMap_nil,
        List.append_nil]
  | full chunk rest h ih =>
    rw [symbolsToBytes_append h, s2b_eq_spelledGroup h.le, ih, spelledBytes, spelledBytes,
      pieces_append (by decide) h, List.flatMap_cons]

/-- A received string has a broken symbol behind its first data symbol. -/
def BrokenFrame (recv : List UInt8) : Prop := ∃ s ∈ frameSymbols recv, symbolValid s = false

instance (recv : List UInt8) : Decidable (BrokenFrame recv) :=
  inferInstanceAs (Decidable (∃ s ∈ frameSymbols recv, symbolValid s = false))

/-- The symbols spell a payload of at least one byte followed by its checksum. -/
def SpellsPacket (symbols : List UInt8) : Prop :=
  crc16Len < (spelledBytes symbols).length ∧ crc16Check (spelledBytes symbols) = true

/-- A received string yields a packet exactly when its symbols spell one. -/
theorem decodeFrame_packet_iff (recv : List UInt8) :
    (∃ packet, decodeFrame recv = .ok (some packet)) ↔ SpellsPacket (frameSymbols recv) := by
  have hbytes : packetBytes recv = spelledBytes (frameSymbols recv) :=
    symbolsToBytes_eq_spelledBytes _
  have hlen : ((packetBytes recv).take ((packetBytes recv).length - crc16Len)).length =
      (packetBytes recv).length - crc16Len := by
    rw [List.length_take]
    omega
  rw [SpellsPacket, ← hbytes]
  constructor
  · rintro ⟨packet, h⟩
    simp only [decodeFrame] at h
    split at h
    · rename_i hcheck
      refine ⟨?_, hcheck⟩
      by_contra hshort
      have hnil := List.length_eq_zero_iff.mp (hlen.trans (by omega))
      rw [hnil, packetNew_nil] at h
      cases h
    · cases h
  · rintro ⟨hshort, hcheck⟩
    have hne : (packetBytes recv).take ((packetBytes recv).length - crc16Len) ≠ [] := by
      intro hnil
      rw [hnil, List.length_nil] at hlen
      omega
    exact ⟨_, by simp only [decodeFrame, hcheck, if_true, packetNew_of_ne_nil hne]; rfl⟩

/-- In every run of `radio_recv` that gathers a string up to `Symbol_End`, broken
symbols keep it from returning a packet exactly when the string has none or the
bytes its signed digits spell are not a packet with its checksum. -/
theorem brokenFrame_rejected_iff {timeout : VTime} {port : Port} {recv : List UInt8}
    (h : (recvLoop timeout (maxFrame + 1) [] port).1 = some recv) :
    (BrokenFrame recv → ∀ packet, (radioRecv timeout port).1 ≠ .ok (some packet)) ↔
      (BrokenFrame recv → ¬ SpellsPacket (frameSymbols recv)) := by
  have hrun : (radioRecv timeout port).1 = decodeFrame recv := by
    rw [radioRecv_eq, h]
    rfl
  rw [hrun, ← decodeFrame_packet_iff]
  simp only [not_exists, ne_eq]

/-- The frame of the one-byte packet `00`, its last symbol `EF` received as `FE`. -/
def brokenStream : List UInt8 := [0x55, 0x55, 0xFF, 0xFF, 0xF7, 0x6D, 0xEF, 0xFE, 0xAA]

theorem brokenFrame_rejected_iff_brokenStream :
    (recvLoop 1000 (maxFrame + 1) [] (promptPort brokenStream fun _ => 4)).1 =
      some [0x55, 0x55, 0xFF, 0xFF, 0xF7, 0x6D, 0xEF, 0xFE] ∧
    ((BrokenFrame [0x55, 0x55, 0xFF, 0xFF, 0xF7, 0x6D, 0xEF, 0xFE] → ∀ packet,
        (radioRecv 1000 (promptPort brokenStream fun _ => 4)).1 ≠ .ok (some packet)) ↔
      (BrokenFrame [0x55, 0x55, 0xFF, 0xFF, 0xF7, 0x6D, 0xEF, 0xFE] →
        ¬ SpellsPacket (frameSymbols [0x55, 0x55, 0xFF, 0xFF, 0xF7, 0x6D, 0xEF, 0xFE]))) :=
  have h : (recvLoop 1000 (maxFrame + 1) [] (promptPort brokenStream fun _ => 4)).1 =
      some [0x55, 0x55, 0xFF, 0xFF, 0xF7, 0x6D, 0xEF, 0xFE] := by decide +kernel
  ⟨h, brokenFrame_rejected_iff h⟩

/-- A frame with a broken symbol is accepted: the claimed rejection fails on `brokenStream`. -/
theorem brokenFrame_accepted :
    ¬ ∀ timeout (port : Port) recv, (recvLoop timeout (maxFrame + 1) [] port).1 = some recv →
      BrokenFrame recv → ∀ packet, (radioRecv timeout port).1 ≠ .ok (some packet) := by
  intro h
  exact h 1000 (promptPort brokenStream fun _ => 4)
    [0x55, 0x55, 0xFF, 0xFF, 0xF7, 0x6D, 0xEF, 0xFE] (by decide +kernel) (by decide +kernel)
    { refcount := 1, data := [0] } (by decide +kernel)

end OldRadio.Second
