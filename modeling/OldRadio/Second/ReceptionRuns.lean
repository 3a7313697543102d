import OldRadio.Second.Reception
import OldRadio.Second.SerialTimer

/-!
# Runs over a whole stream

The serial program listens again and again to what is left of its stream, and a
timeout may end a frame anywhere, so that the next one begins behind any start
mark. However a stream is read, no run over it fails an assertion about lengths
exactly when every frame that begins somewhere in it has a safe payload.
-/

namespace OldRadio.Second

open Library
open Node (M)

/-- Every frame that begins somewhere in the stream has a safe payload. -/
def SafeStream (stream : List UInt8) : Prop :=
  ∀ rest, rest <:+ stream → ∀ payload, streamPayload rest = some payload → SafePayload payload

theorem SafeStream.of_suffix {stream rest : List UInt8} (h : SafeStream stream)
    (hrest : rest <:+ stream) : SafeStream rest :=
  fun last hlast => h last (hlast.trans hrest)

/-! ## What listening leaves -/

theorem waitLoop_suffix (timeout : VTime) (fuel : Nat) (port : Port) :
    (waitLoop timeout fuel port).2.stream <:+ port.stream := by
  induction fuel generalizing port with
  | zero => exact List.suffix_rfl
  | succ fuel ih =>
    by_cases hgo : port.current.now ≤ timeout ∧ port.current.ready = true ∧ port.stream ≠ []
    · obtain ⟨b, rest, hs⟩ := List.exists_cons_of_ne_nil hgo.2.2
      obtain ⟨port', hrest, -, -, hturn⟩ := waitLoop_reads fuel hgo.1 hgo.2.1 hs
      have hsuffix : port'.stream <:+ port.stream := by
        rw [hrest, hs]
        exact List.suffix_cons ..
      rw [hturn]
      split
      · exact hsuffix
      · exact (ih port').trans hsuffix
    · obtain ⟨port', hrest, -, -, hturn⟩ := waitLoop_stops fuel hgo
      rw [hturn, ← hrest]

theorem recvLoop_suffix (timeout : VTime) (fuel : Nat) (recv : List UInt8) (port : Port) :
    (recvLoop timeout fuel recv port).2.stream <:+ port.stream := by
  induction fuel generalizing recv port with
  | zero => exact List.suffix_rfl
  | succ fuel ih =>
    by_cases hgo : recv.length < maxFrame ∧ 1 ≤ timeoutMs timeout port.current.now ∧
        port.current.ready = true ∧ port.stream ≠ []
    · obtain ⟨hroom, hms, hready, hne⟩ := hgo
      obtain ⟨port', hrest, -, -, hturn⟩ := recvLoop_takes fuel hroom hms hready hne
      have hsuffix : port'.stream <:+ port.stream := hrest ▸ List.drop_suffix ..
      rw [hturn]
      split
      · exact hsuffix
      · exact (ih _ port').trans hsuffix
    · obtain ⟨port', hrest, -, -, hturn⟩ := recvLoop_stops fuel hgo
      rw [hturn, ← hrest]

/-- What there is to read after listening is the end of what there was. -/
theorem radioListen_suffix (timeout : VTime) (port : Port) :
    (radioListen timeout port).2.stream <:+ port.stream := by
  have hwait := waitLoop_suffix timeout (port.stream.length + 1) port
  rw [radioListen, radioWait]
  cases hrun : waitLoop timeout (port.stream.length + 1) port with
  | mk heard port' =>
    rw [hrun] at hwait
    cases heard with
    | false => exact hwait
    | true =>
      have hrecv := recvLoop_suffix timeout (maxFrame + 1) [] port'
      dsimp only
      rw [if_pos rfl, radioRecv_eq]
      exact hrecv.trans hwait

/-! ## Runs over safe streams -/

section Safe

variable {F : Type} (ops : FloatOps F) {s next : Serial} {clock : SerialClock} {e : Abort}

/-- Running the timer fails no assertion about received lengths. -/
theorem wp_serialTimer_safe {node : Node} {vtime : VTime} {w : World SerialFront} :
    Wp (serialTimer ops node vtime) (fun _ _ => True) (fun e => e.ofLength = false) w := by
  have hkept : KeptTimer serialCallback node.id vtime (fun _ => True)
      (fun e => e.ofLength = false) (fun _ => True) :=
    serialKeptTimer (serialKept rfl rfl rfl rfl) rfl fun _ _ _ => trivial
  rw [serialTimer, wp_bind, wp_get, wp_bind, wp_modify]
  exact hkept.keptNewTimer.keeps_nodeTimer (fun _ _ => trivial) _ _ trivial

/-- A turn leaves the end of the stream. -/
theorem serialStep_suffix (h : serialStep ops s clock = .ok next) :
    next.port.stream <:+ s.port.stream := by
  have hlisten := radioListen_suffix s.timeout s.port
  rw [serialStep] at h
  split at h
  · rw [serialListen] at h
    obtain ⟨packet?, -, h⟩ := bind_eq_ok h
    cases packet? with
    | none =>
      cases h
      exact hlisten
    | some packet =>
      obtain ⟨⟨node, world⟩, -, h⟩ := bind_eq_ok h
      cases h
      exact hlisten
  · rw [serialElapse] at h
    split at h
    · obtain ⟨⟨node, world⟩, -, h⟩ := bind_eq_ok h
      cases h
      exact List.suffix_rfl
    · cases h
      exact List.suffix_rfl

/-- A turn over a safe stream fails no assertion about lengths. -/
theorem serialStep_safe (hsafe : SafeStream s.port.stream)
    (h : serialStep ops s clock = .error e) : e.ofLength = false := by
  rw [serialStep] at h
  split at h
  · exact serialListen_safe (hsafe _ List.suffix_rfl) h
  · rw [serialElapse] at h
    split at h
    · exact (wp_serialTimer_safe ops).of_error (bind_pure_eq_error.mp h)
    · cases h

/-- Nor does a run. -/
theorem serialRun_safe {clocks : List SerialClock} (hsafe : SafeStream s.port.stream)
    (h : serialRun ops clocks s = .error e) : e.ofLength = false := by
  induction clocks generalizing s with
  | nil => cases h
  | cons clock clocks ih =>
    rw [serialRun] at h
    split at h
    · cases hstep : serialStep ops s clock with
      | error e' =>
        rw [hstep] at h
        cases h
        exact serialStep_safe ops hsafe hstep
      | ok next =>
        rw [hstep, ok_bind] at h
        exact ih (hsafe.of_suffix (serialStep_suffix ops hstep)) h
    · cases h

end Safe

/-! ## Runs that get to a frame -/

/-- Two ports behave alike from here on. -/
structure Port.Ahead (port port' : Port) : Prop where
  /-- There is the same to read. -/
  stream : port'.stream = port.stream
  /-- The turn is the same, -/
  turn : port'.turn = port.turn
  /-- and so is what the environment does in it and later. -/
  turns : ∀ k, port.turn ≤ k → port'.turns k = port.turns k

theorem Port.Ahead.current {port port' : Port} (h : port.Ahead port') :
    port'.current = port.current := by
  rw [Port.current, h.turn, h.turns _ le_rfl, Port.current]

/-- A turn takes both on alike. -/
theorem Port.Ahead.advance {port port' next next' : Port} (h : port.Ahead port')
    (hturns : next.turns = port.turns) (hturns' : next'.turns = port'.turns)
    (hturn : next.turn = port.turn + 1) (hturn' : next'.turn = port'.turn + 1)
    (hstream : next'.stream = next.stream) : next.Ahead next' where
  stream := hstream
  turn := by rw [hturn, hturn', h.turn]
  turns k hk := by
    rw [hturns, hturns']
    exact h.turns k (by omega)

theorem waitLoop_ahead (timeout : VTime) (fuel : Nat) {port port' : Port}
    (h : port.Ahead port') :
    (waitLoop timeout fuel port').1 = (waitLoop timeout fuel port).1 ∧
      (waitLoop timeout fuel port).2.Ahead (waitLoop timeout fuel port').2 := by
  induction fuel generalizing port port' with
  | zero => exact ⟨rfl, h⟩
  | succ fuel ih =>
    by_cases hgo : port.current.now ≤ timeout ∧ port.current.ready = true ∧ port.stream ≠ []
    · obtain ⟨b, rest, hs⟩ := List.exists_cons_of_ne_nil hgo.2.2
      obtain ⟨next, hrest, hturns, hturn, hloop⟩ := waitLoop_reads fuel hgo.1 hgo.2.1 hs
      rw [← h.current] at hgo
      obtain ⟨next', hrest', hturns', hturn', hloop'⟩ := waitLoop_reads fuel hgo.1 hgo.2.1
        (h.stream.trans hs)
      have hnext := h.advance hturns hturns' hturn hturn' (hrest'.trans hrest.symm)
      rw [hloop, hloop']
      split
      · exact ⟨rfl, hnext⟩
      · exact ih hnext
    · obtain ⟨next, hrest, hturns, hturn, hloop⟩ := waitLoop_stops fuel hgo
      rw [← h.current, ← h.stream] at hgo
      obtain ⟨next', hrest', hturns', hturn', hloop'⟩ := waitLoop_stops fuel hgo
      rw [hloop, hloop']
      exact ⟨rfl, h.advance hturns hturns' hturn hturn' (by rw [hrest, hrest', h.stream])⟩

theorem recvLoop_ahead {timeout : VTime} {fuel : Nat} {recv : List UInt8} {port port' : Port}
    (h : port.Ahead port') :
    (recvLoop timeout fuel recv port').1 = (recvLoop timeout fuel recv port).1 := by
  induction fuel generalizing recv port port' with
  | zero => rfl
  | succ fuel ih =>
    by_cases hgo : recv.length < maxFrame ∧ 1 ≤ timeoutMs timeout port.current.now ∧
        port.current.ready = true ∧ port.stream ≠ []
    · obtain ⟨hroom, hms, hready, hne⟩ := hgo
      obtain ⟨next, hrest, hturns, hturn, hloop⟩ := recvLoop_takes fuel hroom hms hready hne
      rw [← h.current] at hms hready
      rw [← h.stream] at hne
      obtain ⟨next', hrest', hturns', hturn', hloop'⟩ := recvLoop_takes fuel hroom hms hready hne
      have hcount : ∀ room, port'.readCount room = port.readCount room := fun room => by
        rw [Port.readCount, h.current, Port.readCount]
      have hnext := h.advance hturns hturns' hturn hturn' (by
        rw [hrest, hrest', h.stream, hcount])
      rw [hloop, hloop', h.stream, hcount]
      split
      · rfl
      · exact ih hnext
    · obtain ⟨next, -, -, -, hloop⟩ := recvLoop_stops fuel hgo
      rw [← h.current, ← h.stream] at hgo
      obtain ⟨next', -, -, -, hloop'⟩ := recvLoop_stops fuel hgo
      rw [hloop, hloop']

/-- Listening sees only what is ahead. -/
theorem radioListen_ahead (timeout : VTime) {port port' : Port} (h : port.Ahead port') :
    (radioListen timeout port').1 = (radioListen timeout port).1 := by
  obtain ⟨hheard, hahead⟩ := waitLoop_ahead timeout (port.stream.length + 1) h
  rw [radioListen, radioListen, radioWait, radioWait, h.stream]
  rcases hrun : waitLoop timeout (port.stream.length + 1) port with ⟨heard, next⟩
  rcases hrun' : waitLoop timeout (port.stream.length + 1) port' with ⟨heard', next'⟩
  rw [hrun, hrun'] at hheard hahead
  obtain rfl : heard' = heard := hheard
  cases heard' with
  | false => rfl
  | true =>
    dsimp only
    rw [if_pos rfl, if_pos rfl, radioRecv_eq, radioRecv_eq, recvLoop_ahead hahead]

/-- Listening takes only one byte, and hears nothing, if nothing is ready in the turn behind it. -/
theorem radioListen_skips {timeout : VTime} {port : Port} {b : UInt8} {rest : List UInt8}
    (hnow : port.current.now ≤ timeout) (hready : port.current.ready = true)
    (hs : port.stream = b :: rest) (hidle : (port.turns (port.turn + 1)).ready = false) :
    ∃ next : Port, radioListen timeout port = (.ok none, next) ∧ next.stream = rest ∧
      next.turns = port.turns ∧ next.turn = port.turn + 2 := by
  obtain ⟨next, hrest, hturns, hturn, hloop⟩ :=
    waitLoop_reads (port.stream.length) hnow hready hs
  have hcurrent : next.current.ready = false := by rw [Port.current, hturns, hturn, hidle]
  rw [radioListen, radioWait, hloop]
  by_cases hb : b = symbolStart
  · have hstops : ¬ (([] : List UInt8).length < maxFrame ∧
        1 ≤ timeoutMs timeout next.current.now ∧ next.current.ready = true ∧ next.stream ≠ []) :=
      fun h => by simp [hcurrent] at h
    obtain ⟨last, hlast, hturns', hturn', hrecv⟩ := recvLoop_stops maxFrame hstops
    refine ⟨last, ?_, hlast.trans hrest, hturns'.trans hturns, ?_⟩
    · rw [if_pos hb]
      dsimp only
      rw [if_pos rfl, radioRecv_eq, hrecv]
      rfl
    · rw [hturn' (by decide), hturn]
  · have hstops : ¬ (next.current.now ≤ timeout ∧ next.current.ready = true ∧ next.stream ≠ []) :=
      fun h => by simp [hcurrent] at h
    rw [if_neg hb, hs, List.length_cons]
    obtain ⟨last, hlast, hturns', hturn', hwait⟩ := waitLoop_stops rest.length hstops
    refine ⟨last, ?_, hlast.trans hrest, hturns'.trans hturns, by rw [hturn', hturn]⟩
    rw [hwait]
    rfl

/-- A port that is not ready in every other turn until `n` bytes are read one by one, and always
ready from then on. -/
def haltingPort (stream : List UInt8) (avail : Nat → Nat) (n : Nat) : Port where
  stream := stream
  turns k := { now := 0, ready := decide (2 * n ≤ k) || k % 2 == 0, avail := avail k }

/-- Node 1 listens to it for a second. -/
def listeningTo (stream : List UInt8) (avail : Nat → Nat) (n : Nat) : SerialArgs where
  id := 1
  timeout := 1
  port := haltingPort stream avail n
  start := 0

/-- The program ends at one second then. -/
theorem eschaton_listeningTo :
    (0 : VTime) + ((1 : Int32).toInt64 * Int64.ofNat vtimeSeconds).toUInt64 = 1000000 := by
  decide +kernel

/-- It begins without a timer. -/
theorem serialStart_listeningTo (stream : List UInt8) (avail : Nat → Nat) (n : Nat)
    (tape : Nat → Fin randRange) (uninit : Nat → List UInt8) :
    ∃ s, serialStart (listeningTo stream avail n) tape uninit = .ok s ∧
      s.port = haltingPort stream avail n ∧ s.running = true ∧ s.listens = true ∧ s.vtime = 0 ∧
      s.timeout = 1000000 := by
  have hinit : Wp (nodeInit none 1 [])
      (fun node w => node.id = 1 ∧ w.front.timer = vtimeInf) (fun _ => False)
      (serialBlank tape uninit) := by
    rw [nodeInit, wp_bind]
    exact wp_virtlocInit fun virtloc _ => ⟨rfl, rfl⟩
  cases hrun : nodeInit none (listeningTo stream avail n).id [] (serialBlank tape uninit) with
  | ok r =>
    obtain ⟨hid, htimer⟩ := hinit.of_ok hrun
    have heq : serialStart (listeningTo stream avail n) tape uninit = .ok
        { world := r.2.setFront { r.2.front with timer := vtimeInf }
          node := r.1
          port := haltingPort stream avail n
          vtime := 0
          eschaton := 1000000
          running := true } := by
      unfold serialStart
      rw [hrun, ok_bind]
      dsimp only [listeningTo]
      rw [eschaton_listeningTo, hid, if_neg (by decide), htimer]
      rfl
    exact ⟨_, heq, rfl, rfl, rfl, rfl, rfl⟩
  | error e => exact (hinit.of_error hrun).elim

/-- The program skips bytes one by one. -/
theorem serialRun_skips {F : Type} (ops : FloatOps F) {avail : Nat → Nat} {n : Nat}
    {front rest stream : List UInt8} {s : Serial} (hrunning : s.running = true)
    (hlistens : s.listens = true) (hvtime : s.vtime = 0)
    (hturns : s.port.turns = (haltingPort stream avail n).turns)
    (hturn : s.port.turn + 2 * front.length = 2 * n) (hs : s.port.stream = front ++ rest) :
    ∃ port : Port, port.stream = rest ∧ port.turns = s.port.turns ∧ port.turn = 2 * n ∧
      ∀ clocks, serialRun ops (List.replicate front.length ⟨0, 0⟩ ++ clocks) s =
        serialRun ops clocks { s with port } := by
  induction front generalizing s with
  | nil => exact ⟨s.port, hs, rfl, hturn, fun _ => rfl⟩
  | cons b front ih =>
    rw [List.length_cons] at hturn
    have hready : s.port.current.ready = true := by
      rw [Port.current, hturns]
      simp only [haltingPort, Bool.or_eq_true, beq_iff_eq]
      omega
    have hidle : (s.port.turns (s.port.turn + 1)).ready = false := by
      rw [hturns]
      simp only [haltingPort, Bool.or_eq_false_iff, decide_eq_false_iff_not, beq_eq_false_iff_ne]
      omega
    have hnow : s.port.current.now ≤ s.timeout := by
      rw [Port.current, hturns]
      exact UInt64.zero_le
    obtain ⟨next, hlisten, hrest, hturns', hturn'⟩ := radioListen_skips hnow hready hs hidle
    obtain ⟨port, hstream, hsame, hcount, hrun⟩ :=
      @ih { s with port := next } hrunning hlistens hvtime (hturns'.trans hturns)
        (by change next.turn + _ = _; omega) hrest
    refine ⟨port, hstream, hsame.trans hturns', hcount, fun clocks => ?_⟩
    have hstep : serialStep ops s ⟨0, 0⟩ = .ok { s with port := next } := by
      rw [serialStep, if_pos hlistens, serialListen, hlisten]
      change Except.ok { s with port := next, vtime := 0 } = _
      rw [← hvtime]
    rw [List.length_cons, List.replicate_succ, List.cons_append, serialRun, if_pos hrunning, hstep,
      ok_bind]
    exact hrun clocks

/-- A program that skips the bytes in front of a frame with an unsafe payload fails. -/
theorem serialMain_fails {F : Type} (ops : FloatOps F) (avail : Nat → Nat)
    (front : List UInt8) {rest payload : List UInt8} (hpayload : streamPayload rest = some payload)
    (hnot : ¬ SafePayload payload) :
    ∃ clocks e, serialMain ops (listeningTo (front ++ rest) avail front.length) (fun _ => 0)
      (fun _ => []) clocks = .error e ∧ e.ofLength = true := by
  obtain ⟨recv, hframe, hdecode⟩ := Option.bind_eq_some_iff.mp hpayload
  obtain ⟨s, hstart, hport, hrunning, hlistens, hvtime, htimeout⟩ :=
    serialStart_listeningTo (front ++ rest) avail front.length (fun _ => 0) fun _ => []
  obtain ⟨port, hrest, hturns, hturn, hrun⟩ := serialRun_skips ops hrunning hlistens hvtime
    (congrArg Port.turns hport) (by rw [hport]; exact Nat.zero_add _) (congrArg Port.stream hport)
  -- from here on the port is prompt
  let prompt : Port := { port with
    turns := fun k => { now := 0, ready := true, avail := avail k } }
  have hprompt : prompt.Prompt s.timeout := fun _ =>
    ⟨rfl, UInt64.zero_le, by rw [htimeout]; exact show 1 ≤ timeoutMs 1000000 0 by decide⟩
  have hahead : prompt.Ahead port := ⟨rfl, rfl, fun k hk => by
    have hlate : 2 * front.length ≤ k := hturn.symm.trans_le hk
    simp [hturns, hport, haltingPort, hlate, prompt]⟩
  have hlisten : (radioListen s.timeout port).1 = some <$> packetNew payload := by
    rw [radioListen_ahead _ hahead, radioListen_prompt hprompt (hrest ▸ hframe), decodeFrame_eq,
      hdecode]
  have hmax : maxFrame < 2 ^ 64 := by decide
  obtain ⟨e, hfails, he⟩ := serialListen_fails (s := { s with port }) ⟨0, 0⟩ hlisten
    ((length_streamPayload_lt hpayload).trans hmax) hnot
  refine ⟨List.replicate front.length ⟨0, 0⟩ ++ [⟨0, 0⟩], e, ?_, he⟩
  have hlistens' : ({ s with port } : Serial).listens = true := hlistens
  have hstep : serialStep ops { s with port } ⟨0, 0⟩ = .error e := by
    rw [serialStep, if_pos hlistens', hfails]
  rw [serialMain, hstart, ok_bind, hrun, serialRun, if_pos hrunning, hstep, error_bind]

/-! ## Every stream -/

theorem serialStart_port {args : SerialArgs} {tape : Nat → Fin randRange}
    {uninit : Nat → List UInt8} {s : Serial} (h : serialStart args tape uninit = .ok s) :
    s.port = args.port := by
  unfold serialStart at h
  obtain ⟨⟨node, world⟩, -, h⟩ := bind_eq_ok h
  cases h
  rfl

/-- For every stream and every way `read` splits it, no run of the program fails an assertion about
received lengths exactly when every frame that begins somewhere in the stream has a safe payload. -/
theorem reception_safe_iff {F : Type} (ops : FloatOps F) (stream : List UInt8)
    (avail : Nat → Nat) :
    (∀ (args : SerialArgs) tape uninit clocks e, args.port.stream = stream →
      (∀ k, (args.port.turns (args.port.turn + k)).avail = avail k) →
      serialMain ops args tape uninit clocks = .error e → e.ofLength = false) ↔
    SafeStream stream := by
  constructor
  · rintro h rest ⟨front, rfl⟩ payload hpayload
    by_contra hnot
    obtain ⟨clocks, e, hrun, he⟩ := serialMain_fails ops avail front hpayload hnot
    have hsafe := h _ _ _ clocks e rfl (fun k => congrArg avail (Nat.zero_add k)) hrun
    rw [he] at hsafe
    cases hsafe
  · intro h args tape uninit clocks e hstream _ hrun
    obtain ⟨s, hstart⟩ := serialStart_ok args tape uninit
    rw [serialMain, hstart, ok_bind] at hrun
    refine serialRun_safe ops ?_ hrun
    rwa [serialStart_port hstart, hstream]

/-- A frame that spells a checksum and nothing else. -/
def emptyFrame : List UInt8 := symbolStart :: bytesToSymbols [0xFF, 0xFF] ++ [symbolEnd]

/-- Its empty payload stops the program in `packet_new`. -/
theorem reception_emptyPayload :
    ¬ ∀ (args : SerialArgs) tape uninit clocks e,
      serialMain integerOps args tape uninit clocks = .error e → e.ofLength = false := by
  intro h
  have hrun : (do
      let _ ← serialMain integerOps (listeningTo emptyFrame (fun _ => 8) 0) (fun _ => 0)
        (fun _ => []) [⟨0, 0⟩]
      return ()) = (Except.error .packetLength : Except Abort Unit) := by decide +kernel
  have := h _ _ _ _ _ (bind_pure_eq_error.mp hrun)
  cases this

end OldRadio.Second
