import OldRadio.Second.Radio

/-!
# What the loops of the radio link see

However the port cuts the stream, the reading loop finds the bytes in front of
the first stop mark within a frame's length, or nothing; without timeouts it
always finds them. The waiting loop stops right behind the first start mark.
The sending loop writes a prefix of the frame, and the whole of it once enough
calls have taken a byte.
-/

namespace OldRadio.Second

open Library

/-- What a reader of whole frames finds at the head of a stream: the bytes in
front of the first `Symbol_End`, if it is among the first `MAX_FRAME`. -/
def firstFrame (stream : List UInt8) : Option (List UInt8) :=
  beforeWithin symbolEnd maxFrame stream

/-- No turn of the port runs into the deadline. -/
def Port.Prompt (timeout : VTime) (port : Port) : Prop :=
  ∀ k, (port.turns k).ready = true ∧ (port.turns k).now ≤ timeout ∧
    1 ≤ timeoutMs timeout (port.turns k).now

namespace Port

@[simp] theorem poll_fst (port : Port) (ms : Int) :
    (port.poll ms).1 = (port.current.ready && !port.stream.isEmpty) := rfl

/-- A read takes a prefix off the stream. -/
theorem read_split (port : Port) (room : Nat) :
    port.stream = (port.read room).1 ++ (port.read room).2.stream :=
  (List.take_append_drop _ _).symm

theorem length_read_le (port : Port) (room : Nat) : (port.read room).1.length ≤ room :=
  (List.length_take_le ..).trans (Nat.min_le_right ..)

/-- With room left and bytes to come, a read makes progress. -/
theorem length_read_pos {port : Port} {room : Nat} (hs : port.stream ≠ []) (hr : 0 < room) :
    0 < (port.read room).1.length := by
  have hpos := List.length_pos_of_ne_nil hs
  simp only [read, List.length_take, readCount]
  omega

/-- A read of one byte takes the head of the stream. -/
theorem read_one {port : Port} {b : UInt8} {rest : List UInt8} (h : port.stream = b :: rest) :
    port.read 1 = ([b], { port with stream := rest }) := by
  have hcount : port.readCount 1 = 1 := by simp only [readCount]; omega
  simp [read, hcount, h]

theorem Prompt.of_turns_eq {timeout : VTime} {port port' : Port} (h : port.Prompt timeout)
    (he : port'.turns = port.turns) : port'.Prompt timeout := by
  intro k
  rw [he]
  exact h k

end Port

/-! ## Reading a frame -/

/-- A turn of the reading loop that gets to `read` takes what `read` finds off the stream. -/
theorem recvLoop_takes {timeout : VTime} {port : Port} {recv : List UInt8} (fuel : Nat)
    (hroom : recv.length < maxFrame) (hms : 1 ≤ timeoutMs timeout port.current.now)
    (hready : port.current.ready = true) (hne : port.stream ≠ []) :
    ∃ port' : Port, port'.stream = port.stream.drop (port.readCount (maxFrame - recv.length)) ∧
      port'.turns = port.turns ∧ port'.turn = port.turn + 1 ∧
      recvLoop timeout (fuel + 1) recv port =
        if symbolEnd ∈ port.stream.take (port.readCount (maxFrame - recv.length)) then
          (some (recv ++ (port.stream.take (port.readCount (maxFrame - recv.length))).takeWhile
            (· ≠ symbolEnd)), port')
        else recvLoop timeout fuel
          (recv ++ port.stream.take (port.readCount (maxFrame - recv.length))) port' := by
  let polled := (port.poll (timeoutMs timeout port.current.now)).2
  have hgo : (port.current.ready && !port.stream.isEmpty) = true := by simp [hready, hne]
  have hfull : ¬ maxFrame ≤ recv.length := by omega
  have hwait : ¬ timeoutMs timeout port.current.now < 1 := by omega
  refine ⟨(polled.read (maxFrame - recv.length)).2.advance, rfl, rfl, rfl, ?_⟩
  rw [recvLoop, if_neg hfull]
  simp only [hwait, if_false, Port.poll_fst, hgo, Bool.not_true, Bool.false_eq_true]
  rfl

/-- What such a turn takes is a piece of the stream that fits the buffer. -/
theorem recvLoop_reads {timeout : VTime} {port : Port} {recv : List UInt8} (fuel : Nat)
    (hroom : recv.length < maxFrame) (hms : 1 ≤ timeoutMs timeout port.current.now)
    (hready : port.current.ready = true) (hne : port.stream ≠ []) :
    ∃ got rest : List UInt8, ∃ port' : Port, port.stream = got ++ rest ∧ 0 < got.length ∧
      got.length ≤ maxFrame - recv.length ∧ port'.stream = rest ∧ port'.turns = port.turns ∧
      recvLoop timeout (fuel + 1) recv port =
        if symbolEnd ∈ got then (some (recv ++ got.takeWhile (· ≠ symbolEnd)), port')
        else recvLoop timeout fuel (recv ++ got) port' := by
  obtain ⟨port', hrest, hturns, -, hturn⟩ := recvLoop_takes fuel hroom hms hready hne
  exact ⟨_, _, port', port.read_split _, Port.length_read_pos hne (by omega),
    port.length_read_le _, hrest, hturns, hturn⟩

/-- A turn of the reading loop that does not get to `read` ends it without a frame. -/
theorem recvLoop_stops {timeout : VTime} {port : Port} {recv : List UInt8} (fuel : Nat)
    (h : ¬ (recv.length < maxFrame ∧ 1 ≤ timeoutMs timeout port.current.now ∧
      port.current.ready = true ∧ port.stream ≠ [])) :
    ∃ port' : Port, port'.stream = port.stream ∧ port'.turns = port.turns ∧
      (recv.length < maxFrame → port'.turn = port.turn + 1) ∧
      recvLoop timeout (fuel + 1) recv port = (none, port') := by
  rw [recvLoop]
  split
  · rename_i hfull
    exact ⟨port, rfl, rfl, fun hroom => absurd hfull (Nat.not_le.mpr hroom), rfl⟩
  · rename_i hfull
    by_cases hms : timeoutMs timeout port.current.now < 1
    · exact ⟨port.advance, rfl, rfl, fun _ => rfl, by simp only [hms, if_true]⟩
    · have hgo : (port.current.ready && !port.stream.isEmpty) = false := by
        by_contra hgo
        simp only [Bool.not_eq_false, Bool.and_eq_true, Bool.not_eq_true',
          List.isEmpty_eq_false_iff] at hgo
        exact h ⟨by omega, by omega, hgo⟩
      exact ⟨(port.poll (timeoutMs timeout port.current.now)).2.advance, rfl, rfl, fun _ => rfl, by
        simp only [hms, if_false, Port.poll_fst, hgo, Bool.not_false, if_true]⟩

/-- With the buffer full the reading loop leaves the port alone. -/
theorem recvLoop_full {timeout : VTime} {port : Port} {recv : List UInt8} (fuel : Nat)
    (h : maxFrame ≤ recv.length) : recvLoop timeout fuel recv port = (none, port) := by
  cases fuel with
  | zero => rfl
  | succ fuel => rw [recvLoop, if_pos h]

/-- Whatever the reading loop returns is the head of the stream up to the stop mark. -/
theorem recvLoop_eq_some {timeout : VTime} {fuel : Nat} {recv out : List UInt8} {port : Port}
    (h : (recvLoop timeout fuel recv port).1 = some out) :
    (beforeWithin symbolEnd (maxFrame - recv.length) port.stream).map (recv ++ ·) = some out := by
  induction fuel generalizing recv port with
  | zero => cases h
  | succ fuel ih =>
    by_cases hgo : recv.length < maxFrame ∧ 1 ≤ timeoutMs timeout port.current.now ∧
        port.current.ready = true ∧ port.stream ≠ []
    · obtain ⟨got, rest, port', hsplit, _, hle, hrest, _, hturn⟩ :=
        recvLoop_reads fuel hgo.1 hgo.2.1 hgo.2.2.1 hgo.2.2.2
      rw [hturn] at h
      split at h
      · rename_i hmem
        rw [hsplit, beforeWithin_append_of_mem hmem _ hle, Option.map_some, ← h]
      · rename_i hmem
        have hrec := ih h
        rw [hrest, List.length_append, Nat.sub_add_eq] at hrec
        rw [hsplit, beforeWithin_append_of_notMem hmem _ hle, Option.map_map, ← hrec]
        simp [Function.comp_def]
    · obtain ⟨port', -, -, -, hstop⟩ := recvLoop_stops fuel hgo
      rw [hstop] at h
      cases h

/-- Without timeouts a turn of the reading loop gets to `read` unless the buffer is full or the
stream has ended. -/
theorem Port.Prompt.full_or_nil {timeout : VTime} {recv : List UInt8} {port : Port}
    (hp : port.Prompt timeout)
    (h : ¬ (recv.length < maxFrame ∧ 1 ≤ timeoutMs timeout port.current.now ∧
      port.current.ready = true ∧ port.stream ≠ [])) :
    maxFrame ≤ recv.length ∨ port.stream = [] := by
  by_contra hgo
  rw [not_or] at hgo
  exact h ⟨Nat.lt_of_not_le hgo.1, (hp port.turn).2.2, (hp port.turn).1, hgo.2⟩

/-- Without timeouts the reading loop finds the stop mark if it is within reach. -/
theorem recvLoop_prompt {timeout : VTime} {fuel : Nat} {recv : List UInt8} {port : Port}
    (hp : port.Prompt timeout) (hfuel : maxFrame - recv.length < fuel) :
    (recvLoop timeout fuel recv port).1 =
      (beforeWithin symbolEnd (maxFrame - recv.length) port.stream).map (recv ++ ·) := by
  induction fuel generalizing recv port with
  | zero => omega
  | succ fuel ih =>
    by_cases hgo : recv.length < maxFrame ∧ 1 ≤ timeoutMs timeout port.current.now ∧
        port.current.ready = true ∧ port.stream ≠ []
    · obtain ⟨got, rest, port', hsplit, hpos, hle, hrest, hturns, hturn⟩ :=
        recvLoop_reads fuel hgo.1 hgo.2.1 hgo.2.2.1 hgo.2.2.2
      rw [hturn, hsplit]
      split
      · rename_i hmem
        rw [beforeWithin_append_of_mem hmem _ hle, Option.map_some]
      · rename_i hmem
        rw [ih (hp.of_turns_eq hturns) (by rw [List.length_append]; omega), hrest,
          beforeWithin_append_of_notMem hmem _ hle, Option.map_map, List.length_append,
          Nat.sub_add_eq]
        simp [Function.comp_def]
    · obtain ⟨port', -, -, -, hstop⟩ := recvLoop_stops fuel hgo
      rw [hstop]
      rcases hp.full_or_nil hgo with hfull | hnil
      · rw [Nat.sub_eq_zero_of_le hfull]
        rfl
      · rw [hnil, beforeWithin_nil, Option.map_none]

/-- Without timeouts the reading loop takes as much off the stream as it can hold if it finds no
stop mark, and else more than the frame. -/
theorem recvLoop_rest {timeout : VTime} {fuel : Nat} {recv : List UInt8} {port : Port}
    (hp : port.Prompt timeout) (hfuel : maxFrame - recv.length < fuel) :
    ∃ j, (recvLoop timeout fuel recv port).2.stream = port.stream.drop j ∧
      (recvLoop timeout fuel recv port).2.turns = port.turns ∧ j ≤ maxFrame - recv.length ∧
      ((recvLoop timeout fuel recv port).1 = none → j = maxFrame - recv.length) ∧
      ∀ out, (recvLoop timeout fuel recv port).1 = some out → out.length < recv.length + j := by
  induction fuel generalizing recv port with
  | zero => omega
  | succ fuel ih =>
    by_cases hgo : recv.length < maxFrame ∧ 1 ≤ timeoutMs timeout port.current.now ∧
        port.current.ready = true ∧ port.stream ≠ []
    · obtain ⟨got, rest, port', hsplit, hpos, hle, hrest, hturns, hturn⟩ :=
        recvLoop_reads fuel hgo.1 hgo.2.1 hgo.2.2.1 hgo.2.2.2
      rw [hturn, hsplit]
      split
      · rename_i hmem
        refine ⟨got.length, by rw [List.drop_left, hrest], hturns, hle, nofun, ?_⟩
        intro out hout
        obtain ⟨front, tail, rfl, hfront⟩ := List.eq_append_cons_of_mem hmem
        rw [← Option.some.inj hout, List.takeWhile_append_of_pos fun b hb => ?_]
        · simp
        · exact decide_eq_true fun h => hfront (h ▸ hb)
      · have hless : maxFrame - (recv ++ got).length < fuel := by
          rw [List.length_append]
          omega
        obtain ⟨j, hj, ht, hjle, hnone, hsome⟩ := ih (hp.of_turns_eq hturns) hless
        rw [List.length_append] at hjle hnone hsome
        refine ⟨got.length + j, ?_, ht.trans hturns, by omega, fun h => ?_, fun out h => ?_⟩
        · rw [hj, hrest, ← List.drop_drop, List.drop_left]
        · rw [hnone h]
          omega
        · have hlen := hsome out h
          omega
    · obtain ⟨port', hrest, hturns, -, hstop⟩ := recvLoop_stops fuel hgo
      rw [hstop]
      refine ⟨maxFrame - recv.length, ?_, hturns, le_rfl, fun _ => rfl, nofun⟩
      rw [hrest]
      rcases hp.full_or_nil hgo with hfull | hnil
      · rw [Nat.sub_eq_zero_of_le hfull, List.drop_zero]
      · rw [hnil, List.drop_nil]

/-- The frame a run of `radio_recv` gathers, whatever its turns, is the first of the stream. -/
theorem recvLoop_firstFrame {timeout : VTime} {port : Port} {recv : List UInt8}
    (h : (recvLoop timeout (maxFrame + 1) [] port).1 = some recv) :
    firstFrame port.stream = some recv := by
  simpa [firstFrame] using recvLoop_eq_some h

/-- Without timeouts `radio_recv` gathers the first frame of the stream. -/
theorem recvLoop_firstFrame_prompt {timeout : VTime} {port : Port} (hp : port.Prompt timeout) :
    (recvLoop timeout (maxFrame + 1) [] port).1 = firstFrame port.stream := by
  rw [recvLoop_prompt hp (by simp)]
  simp [firstFrame]

/-- `radio_recv` decodes what its reading loop gathers. -/
theorem radioRecv_eq (timeout : VTime) (port : Port) :
    radioRecv timeout port =
      ((recvLoop timeout (maxFrame + 1) [] port).1.elim (.ok none) decodeFrame,
        (recvLoop timeout (maxFrame + 1) [] port).2) := by
  rw [radioRecv]
  rcases recvLoop timeout (maxFrame + 1) [] port with ⟨_ | recv, port'⟩ <;> rfl

/-- `radio_recv` returns nothing, or decodes the first frame of the stream. -/
theorem radioRecv_firstFrame (timeout : VTime) (port : Port) :
    (radioRecv timeout port).1 = .ok none ∨ ∃ recv, firstFrame port.stream = some recv ∧
      (radioRecv timeout port).1 = decodeFrame recv := by
  rw [radioRecv_eq]
  cases hrecv : (recvLoop timeout (maxFrame + 1) [] port).1 with
  | none => exact Or.inl rfl
  | some recv => exact Or.inr ⟨recv, recvLoop_firstFrame hrecv, rfl⟩

/-- Without timeouts `radio_recv` is the decoding of the first frame, if there is one. -/
theorem radioRecv_prompt {timeout : VTime} {port : Port} (hp : port.Prompt timeout) :
    (radioRecv timeout port).1 =
      match firstFrame port.stream with
      | none => .ok none
      | some recv => decodeFrame recv := by
  rw [radioRecv_eq, recvLoop_firstFrame_prompt hp]
  cases firstFrame port.stream <;> rfl

/-! ## Waiting for a start mark -/

/-- A turn of the waiting loop that gets to `read` takes one byte. -/
theorem waitLoop_reads {timeout : VTime} {port : Port} {b : UInt8} {rest : List UInt8} (fuel : Nat)
    (hnow : port.current.now ≤ timeout) (hready : port.current.ready = true)
    (hs : port.stream = b :: rest) :
    ∃ port' : Port, port'.stream = rest ∧ port'.turns = port.turns ∧
      port'.turn = port.turn + 1 ∧ waitLoop timeout (fuel + 1) port =
        if b = symbolStart then (true, port') else waitLoop timeout fuel port' := by
  let polled := (port.poll (max (timeoutMs timeout port.current.now) 1)).2
  have hgo : (port.current.ready && !port.stream.isEmpty) = true := by simp [hready, hs]
  refine ⟨({ polled with stream := rest } : Port).advance, rfl, rfl, rfl, ?_⟩
  have hread : polled.read 1 = ([b], { polled with stream := rest }) := Port.read_one hs
  rw [waitLoop, if_neg (UInt64.not_lt.mpr hnow)]
  simp only [Port.poll_fst, hgo, Bool.not_true, Bool.false_eq_true, if_false]
  change (if (polled.read 1).1 = [symbolStart] then _ else _) = _
  rw [hread]
  simp only [List.cons.injEq, and_true]

/-- A turn of the waiting loop that does not get to `read` gives up. -/
theorem waitLoop_stops {timeout : VTime} {port : Port} (fuel : Nat)
    (h : ¬ (port.current.now ≤ timeout ∧ port.current.ready = true ∧ port.stream ≠ [])) :
    ∃ port' : Port, port'.stream = port.stream ∧ port'.turns = port.turns ∧
      port'.turn = port.turn + 1 ∧ waitLoop timeout (fuel + 1) port = (false, port') := by
  rw [waitLoop]
  split
  · exact ⟨port.advance, rfl, rfl, rfl, rfl⟩
  · rename_i hnow
    have hgo : (port.current.ready && !port.stream.isEmpty) = false := by
      by_contra hgo
      simp only [Bool.not_eq_false, Bool.and_eq_true, Bool.not_eq_true',
        List.isEmpty_eq_false_iff] at hgo
      exact h ⟨UInt64.not_lt.mp hnow, hgo⟩
    exact ⟨(port.poll (max (timeoutMs timeout port.current.now) 1)).2.advance, rfl, rfl, rfl, by
      simp [hgo]⟩

/-- The waiting loop reports a start mark only right behind the first one. -/
theorem waitLoop_true {timeout : VTime} {fuel : Nat} {port : Port}
    (h : (waitLoop timeout fuel port).1 = true) :
    ∃ noise, symbolStart ∉ noise ∧
      port.stream = noise ++ symbolStart :: (waitLoop timeout fuel port).2.stream ∧
      (waitLoop timeout fuel port).2.turns = port.turns := by
  induction fuel generalizing port with
  | zero => simp [waitLoop] at h
  | succ fuel ih =>
    by_cases hgo : port.current.now ≤ timeout ∧ port.current.ready = true ∧ port.stream ≠ []
    · obtain ⟨b, rest, hs⟩ := List.exists_cons_of_ne_nil hgo.2.2
      obtain ⟨port', hrest, hturns, -, hturn⟩ := waitLoop_reads fuel hgo.1 hgo.2.1 hs
      rw [hturn] at h ⊢
      by_cases hb : b = symbolStart
      · rw [if_pos hb]
        exact ⟨[], by simp, by rw [hs, hb, hrest]; rfl, hturns⟩
      · rw [if_neg hb] at h ⊢
        obtain ⟨noise, hn, hnext, ht⟩ := ih h
        refine ⟨b :: noise, by simp [hn, Ne.symm hb], ?_, ht.trans hturns⟩
        rw [hs, List.cons_append, ← hnext, hrest]
    · obtain ⟨port', -, -, -, hturn⟩ := waitLoop_stops fuel hgo
      rw [hturn] at h
      cases h

/-- `radio_wait` returns 1 right behind the first start mark of the stream. -/
theorem radioWait_true {timeout : VTime} {port port' : Port}
    (h : radioWait timeout port = (true, port')) :
    ∃ noise, symbolStart ∉ noise ∧ port.stream = noise ++ symbolStart :: port'.stream := by
  have hheard : (waitLoop timeout (port.stream.length + 1) port).1 = true := congrArg Prod.fst h
  have hport : (waitLoop timeout (port.stream.length + 1) port).2 = port' := congrArg Prod.snd h
  obtain ⟨noise, hnoise, hstream, -⟩ := waitLoop_true hheard
  rw [hport] at hstream
  exact ⟨noise, hnoise, hstream⟩

/-- Without timeouts the waiting loop gets past any noise in front of a start mark. -/
theorem waitLoop_prompt {timeout : VTime} (fuel : Nat) {port : Port} {noise rest : List UInt8}
    (hp : port.Prompt timeout) (hn : symbolStart ∉ noise)
    (hs : port.stream = noise ++ symbolStart :: rest) (hfuel : noise.length < fuel) :
    ∃ port', waitLoop timeout fuel port = (true, port') ∧ port'.stream = rest ∧
      port'.turns = port.turns ∧ port'.turn = port.turn + (noise.length + 1) := by
  induction noise generalizing fuel port with
  | nil =>
    obtain ⟨fuel, rfl⟩ : ∃ k, fuel = k + 1 := ⟨fuel - 1, by simp at hfuel; omega⟩
    obtain ⟨port', hrest, hturns, hnext, hturn⟩ :=
      waitLoop_reads fuel (hp port.turn).2.1 (hp port.turn).1 hs
    exact ⟨port', by rw [hturn, if_pos rfl], hrest, hturns, hnext⟩
  | cons b noise ih =>
    obtain ⟨fuel, rfl⟩ : ∃ k, fuel = k + 1 := ⟨fuel - 1, by simp at hfuel; omega⟩
    obtain ⟨hb, hnoise⟩ : symbolStart ≠ b ∧ symbolStart ∉ noise := by
      simpa only [List.mem_cons, not_or] using hn
    obtain ⟨port', hrest, hturns, hnext, hturn⟩ :=
      waitLoop_reads fuel (hp port.turn).2.1 (hp port.turn).1 hs
    have hlen : noise.length < fuel := by simp only [List.length_cons] at hfuel; omega
    obtain ⟨last, hlast, hstream, ht, hcount⟩ := ih _ (hp.of_turns_eq hturns) hnoise hrest hlen
    refine ⟨last, by rw [hturn, if_neg (Ne.symm hb), hlast], hstream, ht.trans hturns, ?_⟩
    rw [hcount, hnext, List.length_cons]
    omega

/-! ## Writing a frame -/

/-- What has gone out is always the first `n` bytes of the frame. -/
theorem writeLoop_prefix (frame : List UInt8) (n : Nat) (outcomes : List (Option Nat))
    (hn : n ≤ frame.length) :
    (writeLoop frame n (frame.take n) outcomes).1 ≤ frame.length ∧
      (writeLoop frame n (frame.take n) outcomes).2 =
        frame.take (writeLoop frame n (frame.take n) outcomes).1 := by
  induction outcomes generalizing n with
  | nil => exact ⟨hn, rfl⟩
  | cons outcome outcomes ih =>
    simp only [writeLoop]
    split
    · cases outcome with
      | none => exact ih n hn
      | some k =>
        simp only [← List.take_add]
        exact ih _ (by omega)
    · exact ⟨hn, rfl⟩

/-- A call of `write` that takes at least one byte. -/
def progresses (outcome : Option Nat) : Bool := outcome.any (0 < ·)

/-- As many calls with progress as there are bytes left finish the frame. -/
theorem writeLoop_done (frame wire : List UInt8) (n : Nat) (outcomes : List (Option Nat))
    (h : frame.length ≤ n + outcomes.countP progresses) :
    frame.length ≤ (writeLoop frame n wire outcomes).1 := by
  induction outcomes generalizing n wire with
  | nil => simpa [writeLoop] using h
  | cons outcome outcomes ih =>
    simp only [writeLoop]
    split
    · cases outcome with
      | none => exact ih _ _ (by simpa [progresses] using h)
      | some k =>
        apply ih
        rw [List.countP_cons] at h
        rcases Nat.eq_zero_or_pos k with rfl | hk
        · simpa [progresses] using h
        · have hone : progresses (some k) = true := by simp [progresses, hk]
          rw [if_pos hone] at h
          omega
    · simp only
      omega

end OldRadio.Second
