import Mathlib.Data.List.TakeWhile
import OldRadio.Second.Serial

/-!
# What received data does to a node

The checksum says nothing about what a frame holds: its payload may be empty or
cut short. `packet_new` asserts that there is a payload, and the node asserts
lengths of beacons and data packets. Listening once fails none of these if the
payload of the first frame to come is long enough for its type, and fails one if
it is not and the frame is read without a timeout.
-/

namespace OldRadio.Second

open Library
open Node (M)

/-- The assertions about the length of received data. -/
def Abort.ofLength : Abort → Bool
  | .packetLength | .beaconLength | .dataLength => true
  | _ => false

/-! ## The first frame of a stream -/

/-- What `radio_recv` gathers behind the first `Symbol_Start` of a stream. -/
def streamFrame (stream : List UInt8) : Option (List UInt8) :=
  match stream.dropWhile fun b => b != symbolStart with
  | [] => none
  | _ :: rest => firstFrame rest

/-- The payload of a frame whose checksum is correct. -/
def framePayload (recv : List UInt8) : Option (List UInt8) :=
  if crc16Check (packetBytes recv) then
    some ((packetBytes recv).take ((packetBytes recv).length - crc16Len))
  else none

/-- The payload of the first frame of a stream. -/
def streamPayload (stream : List UInt8) : Option (List UInt8) :=
  (streamFrame stream).bind framePayload

theorem decodeFrame_eq (recv : List UInt8) :
    decodeFrame recv =
      match framePayload recv with
      | some payload => some <$> packetNew payload
      | none => .ok none := by
  rw [decodeFrame, framePayload]
  split <;> rfl

theorem streamFrame_append {noise : List UInt8} (h : symbolStart ∉ noise) (rest : List UInt8) :
    streamFrame (noise ++ symbolStart :: rest) = firstFrame rest := by
  have hdrop : (noise ++ symbolStart :: rest).dropWhile (fun b => b != symbolStart) =
      symbolStart :: rest := by
    rw [List.dropWhile_append_of_pos fun b hb => ?_]
    · simp
    · exact bne_iff_ne.mpr fun hstart => h (hstart ▸ hb)
  rw [streamFrame, hdrop]

/-- The payload of a stream is shorter than a frame. -/
theorem length_streamPayload_lt {stream payload : List UInt8}
    (h : streamPayload stream = some payload) : payload.length < maxFrame := by
  obtain ⟨recv, hframe, hpayload⟩ := Option.bind_eq_some_iff.mp h
  have hrecv : recv.length < maxFrame := by
    unfold streamFrame at hframe
    split at hframe
    · cases hframe
    · exact (beforeWithin_eq_some hframe).2.1
  have hbytes : (packetBytes recv).length ≤ recv.length := by
    have := (List.dropWhile_suffix (fun s => !symbolValid s) (l := recv)).length_le
    rw [packetBytes, length_symbolsToBytes, frameSymbols]
    omega
  unfold framePayload at hpayload
  split at hpayload
  · cases hpayload
    rw [List.length_take]
    omega
  · cases hpayload

/-- Listening gives nothing, or decodes the first frame of the stream. -/
theorem radioListen_frame (timeout : VTime) (port : Port) :
    (radioListen timeout port).1 = .ok none ∨ ∃ recv, streamFrame port.stream = some recv ∧
      (radioListen timeout port).1 = decodeFrame recv := by
  rw [radioListen]
  rcases hwait : radioWait timeout port with ⟨heard, port'⟩
  cases heard with
  | false => exact Or.inl rfl
  | true =>
    obtain ⟨noise, hnoise, hstream⟩ := radioWait_true hwait
    rw [hstream, streamFrame_append hnoise]
    dsimp only
    rw [if_pos rfl]
    exact radioRecv_firstFrame timeout port'

/-- Without timeouts listening decodes the first frame of the stream. -/
theorem radioListen_prompt {timeout : VTime} {port : Port} {recv : List UInt8}
    (hp : port.Prompt timeout) (hframe : streamFrame port.stream = some recv) :
    (radioListen timeout port).1 = decodeFrame recv := by
  have hstart : symbolStart ∈ port.stream := by
    by_contra hno
    have hnil : port.stream.dropWhile (fun b => b != symbolStart) = [] :=
      List.dropWhile_eq_nil_iff.mpr fun b hb => bne_iff_ne.mpr fun h => hno (h ▸ hb)
    rw [streamFrame, hnil] at hframe
    cases hframe
  obtain ⟨noise, rest, hstream, hnoise⟩ := List.eq_append_cons_of_mem hstart
  rw [hstream, streamFrame_append hnoise] at hframe
  obtain ⟨port', hwait, hrest, hturns, -⟩ :=
    waitLoop_prompt (port.stream.length + 1) hp hnoise hstream (by
      rw [hstream, List.length_append]
      omega)
  rw [radioListen, radioWait, hwait]
  dsimp only
  rw [if_pos rfl, radioRecv_prompt (hp.of_turns_eq hturns), hrest, hframe]

/-! ## Payloads -/

/-- A payload that passes the assertions about its length. -/
structure SafePayload (payload : List UInt8) : Prop where
  /-- It has a byte. -/
  ne_nil : payload ≠ []
  /-- A beacon has whole entries behind its header, or no header: the length of one byte less the
  header wraps to a multiple of the entry size. -/
  beacon : payload.headD 0 = packetTypeBeacon →
    payload.length = 1 ∨ payload.length % neighLayout.size = nodeBeaconHeaderSize
  /-- A data packet has all its fields. -/
  data : payload.headD 0 = packetTypeData → packetDataLayout.size ≤ payload.length

/-- The length assertion of a beacon, in lengths. -/
theorem beaconCount_beaconLength_iff {length : Nat} (hpos : 1 ≤ length) (hlt : length < 2 ^ 64) :
    beaconCount length = .error .beaconLength ↔
      ¬ (length = 1 ∨ length % neighLayout.size = nodeBeaconHeaderSize) := by
  have hmod : (UInt64.ofNat length - UInt64.ofNat nodeBeaconHeaderSize) %
      UInt64.ofNat neighLayout.size ≠ 0 ↔
      ¬ (length = 1 ∨ length % neighLayout.size = nodeBeaconHeaderSize) := by
    rw [Ne, ← UInt64.toNat_inj, UInt64.toNat_mod, UInt64.toNat_sub, UInt64.toNat_ofNat',
      UInt64.toNat_ofNat', UInt64.toNat_ofNat', neighLayout_size, nodeBeaconHeaderSize]
    change ¬ (2 ^ 64 - 2 + length % 2 ^ 64) % 2 ^ 64 % 15 = 0 ↔ _
    rcases Nat.lt_or_ge length 2 with hone | htwo
    · obtain rfl : length = 1 := by omega
      decide
    · have hsub : (2 ^ 64 - 2 + length % 2 ^ 64) % 2 ^ 64 = length - 2 := by omega
      rw [hsub]
      omega
  rw [beaconCount, ← hmod]
  split
  · rename_i h
    exact iff_of_true rfl h
  · rename_i h
    refine iff_of_false (fun hcount => ?_) h
    split at hcount <;> cases hcount

theorem beaconParse_beaconLength_iff {data : List UInt8} (hne : data ≠ [])
    (hlt : data.length < 2 ^ 64) :
    beaconParse data = .error .beaconLength ↔
      ¬ (data.length = 1 ∨ data.length % neighLayout.size = nodeBeaconHeaderSize) := by
  rw [beaconParse, bind_pure_eq_error,
    beaconCount_beaconLength_iff (List.length_pos_of_ne_nil hne) hlt]

/-! ## Receiving -/

section Receive

variable {node : Node} {vtime : VTime} {w : World SerialFront} {packet : Packet}

/-- A packet with a safe payload fails no assertion about its length. -/
theorem wp_serialReceive_safe (hlt : packet.data.length < 2 ^ 64) (h : SafePayload packet.data) :
    Wp (serialReceive node vtime packet) (fun _ _ => True) (fun e => e.ofLength = false) w := by
  have hkept : KeptTimer serialCallback node.id vtime (fun _ => True)
      (fun e => e.ofLength = false) (fun _ => True) :=
    serialKeptTimer (serialKept rfl rfl rfl rfl) rfl fun _ _ _ => trivial
  have hbeacon : ∀ e, packet.data.headD 0 = packetTypeBeacon →
      beaconParse packet.data = .error e → e.ofLength = false := fun e htype he => by
    rcases beaconParse_error he with rfl | rfl
    · exact absurd (h.beacon htype) ((beaconParse_beaconLength_iff h.ne_nil hlt).mp he)
    · rfl
  have hreceive := hkept.wp_nodeReceive (fun _ _ => trivial) (w.push_heap packet) hbeacon
    (fun htype hshort => absurd (h.data htype) (Nat.not_le.mpr hshort))
    (fun _ => ⟨trivial, fun _ => trivial⟩) trivial
  exact wp_serialReceive.mpr (hreceive.imp fun _ w' hw' => hkept.toKept.keeps_packetFree _ w' hw')

/-- A packet with a payload of the wrong length for its type fails one. -/
theorem wp_serialReceive_fails (hheld : packet.refcount ≠ 0) (hlt : packet.data.length < 2 ^ 64)
    (hne : packet.data ≠ []) (h : ¬ SafePayload packet.data) :
    Wp (serialReceive node vtime packet) (fun _ _ => False) (fun e => e.ofLength = true) w := by
  rw [wp_serialReceive, nodeReceive, wp_bind]
  refine (wp_packetRead_iff (w.push_heap packet)).mpr
    ⟨fun hfreed => absurd hfreed hheld, fun _ => ?_⟩
  dsimp only
  split
  · rename_i htype
    have hparse : beaconParse packet.data = .error .beaconLength := by
      rw [beaconParse_beaconLength_iff hne hlt]
      intro hlength
      refine h ⟨hne, fun _ => hlength, fun hdata => ?_⟩
      exact absurd (htype.symm.trans hdata) (by decide)
    rw [nodeReceiveBeacon, hparse, wp_bind]
    refine wp_ofExcept (fun _ h => ?_) fun e he => ?_
    · cases h
    · cases he
      rfl
  · rename_i hbeacon
    have hdata : packet.data.headD 0 = packetTypeData ∧
        packet.data.length < packetDataLayout.size := by
      by_contra hno
      refine h ⟨hne, fun htype => absurd htype hbeacon, fun htype => ?_⟩
      exact Nat.le_of_not_lt fun hshort => hno ⟨htype, hshort⟩
    rw [if_neg (by rw [hdata.1]; decide), if_pos hdata.1, wp_bind, nodeReceiveData,
      if_pos hdata.2]
    rfl

end Receive

/-! ## Every stream -/

/-- Listening to an unsafe payload fails an assertion about its length. -/
theorem serialListen_fails {s : Serial} {payload : List UInt8} (clock : SerialClock)
    (hlisten : (radioListen s.timeout s.port).1 = some <$> packetNew payload)
    (hlt : payload.length < 2 ^ 64) (hnot : ¬ SafePayload payload) :
    ∃ e, serialListen s clock = .error e ∧ e.ofLength = true := by
  rw [serialListen, hlisten]
  by_cases hnil : payload = []
  · rw [hnil]
    exact ⟨.packetLength, rfl, rfl⟩
  · rw [packetNew_of_ne_nil hnil]
    have hreceive : Wp (serialReceive s.node clock.received { refcount := 1, data := payload })
        (fun _ _ => False) (fun e => e.ofLength = true) s.world :=
      wp_serialReceive_fails Nat.one_ne_zero hlt hnil hnot
    cases hrun : serialReceive s.node clock.received { refcount := 1, data := payload } s.world with
    | ok r => exact (hreceive.of_ok hrun).elim
    | error e =>
      refine ⟨e, ?_, hreceive.of_error hrun⟩
      change (serialReceive _ _ _ _ >>= _) = _
      rw [hrun, error_bind]

/-- Listening to a stream with a safe payload, or none, fails no assertion about lengths. -/
theorem serialListen_safe {s : Serial} {clock : SerialClock} {e : Abort}
    (h : ∀ payload, streamPayload s.port.stream = some payload → SafePayload payload)
    (hrun : serialListen s clock = .error e) : e.ofLength = false := by
  rw [serialListen] at hrun
  rcases radioListen_frame s.timeout s.port with hnone | ⟨recv, hframe, hlisten⟩
  · rw [hnone] at hrun
    cases hrun
  · rw [hlisten, decodeFrame_eq] at hrun
    cases hpayload : framePayload recv with
    | none =>
      rw [hpayload] at hrun
      cases hrun
    | some payload =>
      have hstream : streamPayload s.port.stream = some payload := by
        rw [streamPayload, hframe, Option.bind_some, hpayload]
      have hsafe := h payload hstream
      have hmax : maxFrame < 2 ^ 64 := by decide
      rw [hpayload] at hrun
      dsimp only at hrun
      rw [packetNew_of_ne_nil hsafe.ne_nil] at hrun
      have hreceive : Wp (serialReceive s.node clock.received { refcount := 1, data := payload })
          (fun _ _ => True) (fun e => e.ofLength = false) s.world :=
        wp_serialReceive_safe ((length_streamPayload_lt hstream).trans hmax) hsafe
      exact hreceive.of_error (bind_pure_eq_error.mp hrun)

end OldRadio.Second
