import OldRadio.First.Virtloc

/-!
# Runs of the programs

A sending of a program is a recalculation and a sending of the network of
beacons, and a pass that hears a beacon is its reception; other passes are
nothing. So the tables of the programs are those of a network of beacons, and in
a network of at most `MAXNEIGH` programs no assertion of `beacon_recv` fails.
-/

namespace OldRadio.First

open Library
open Second (crc16Set crc16Check crc16Check_crc16Set crc16Set_append)

/-! ## Packets with beacons -/

/-- A packet with a beacon, its type in front and two bytes behind. -/
def packetOf (beacon : List UInt8) (low high : UInt8) : List UInt8 :=
  beaconType :: (beacon ++ [low, high])

@[simp] theorem length_packetOf (beacon : List UInt8) (low high : UInt8) :
    (packetOf beacon low high).length = beacon.length + 3 := by
  simp [packetOf]

@[simp] theorem beaconIn_packetOf (beacon : List UInt8) (low high : UInt8) :
    beaconIn (packetOf beacon low high) = beacon := by
  rw [beaconIn, length_packetOf, packetOf]
  simp

theorem drop_packetOf (beacon behind : List UInt8) (low high : UInt8) :
    (packetOf beacon low high).drop 1 ++ behind = beacon ++ (low :: high :: behind) := by
  simp [packetOf]

/-- A node ignores its own beacons. -/
theorem BeaconOf.beaconRecv_self {id : NodeId} {bytes behind : List UInt8}
    {records : List BeaconT} {s : Beacons} {now : Int} (h : BeaconOf id bytes records)
    (hself : id = s.identifier) : beaconRecv s (bytes ++ behind) bytes.length now = .ok s := by
  obtain ⟨first, rest, rfl, hid, hstratum⟩ := h.sender
  have hle : rest.length + 1 ≤ 20 := h.length_le
  have hfirst :
      beaconLayout.decode (beaconLayout.encodeList (first :: rest) ++ behind) = first := by
    rw [Packed.encodeList, List.flatMap_cons, List.append_assoc, Packed.decode_encode]
  have hlen : (beaconLayout.encodeList (first :: rest) ++ behind).length =
      (rest.length + 1) * beaconLayout.size + behind.length := by
    rw [List.length_append, Packed.length_encodeList, List.length_cons]
  have hint : (rest.length + 1) * beaconLayout.size < 2 ^ 31 := by
    rw [beaconLayout_size]
    omega
  have hsize : beaconLayout.size ≤ (rest.length + 1) * beaconLayout.size :=
    Nat.le_mul_of_pos_left _ (Nat.succ_pos _)
  rw [h.spells, Packed.length_encodeList, List.length_cons, beaconRecv, hfirst,
    sizeT_natCast hint, if_neg (by rw [Nat.mul_mod_left]; decide), if_neg (by rw [hlen]; omega),
    if_neg (not_not.mpr hstratum), if_pos (hid.trans hself)]

namespace Virtloc

variable {t : SymbolTable} {energy : List NeighbourT → VLoc → UInt64} {s s' : Virtloc}

/-- What a sending does. -/
theorem send_ok {now : Int} {tape : Nat → Fin randRange} {outcomes : List (Option Nat)}
    {tv1 : TimeVal} {sent : Sent} (h : s.send t energy now tape outcomes tv1 = .ok (s', sent)) :
    s'.beacons = beaconRecalc energy s.beacons now tape ∧
      (∃ low high, sent.packet =
        packetOf (beaconPrepare s'.beacons (bufferLen - 1 : Nat)) low high) ∧
      crc16Check sent.packet = true ∧
      t.sendPacket sent.packet outcomes = .ok (some sent.done, sent.wire) := by
  rw [send] at h
  split at h
  case h_1 => cases h
  case h_2 loop _ =>
    dsimp only at h
    split at h
    case isTrue => cases h
    case isFalse =>
      split at h
      case h_1 => cases h
      case h_2 packet hset =>
        split at h
        case h_1 => cases h
        case h_2 => cases h
        case h_3 done wire hsend =>
          cases h
          refine ⟨rfl, ?_, crc16Check_crc16Set hset, hsend⟩
          rw [← List.cons_append, crc16Set_append] at hset
          cases hset
          exact ⟨_, _, rfl⟩

theorem send_ne_assertion {now : Int} {tape : Nat → Fin randRange} {outcomes : List (Option Nat)}
    {tv1 : TimeVal} {e : BeaconAbort} :
    s.send t energy now tape outcomes tv1 ≠ .error (.assertion e) := by
  intro h
  rw [send] at h
  split at h
  case h_1 => cases h
  case h_2 =>
    dsimp only at h
    split at h
    case isTrue => cases h
    case isFalse =>
      split at h
      case h_1 => cases h
      case h_2 =>
        split at h
        all_goals cases h

/-- What a pass that goes well does to the table. -/
theorem pass_ok {h : Hearing} (hpass : s.pass t h = .ok s') :
    ∃ heard bytes, t.listen h.turns h.c h.stream = .ok (heard, bytes) ∧
      (holdsBeacon bytes = false ∧ s'.beacons = s.beacons ∨
        holdsBeacon bytes = true ∧
          beaconRecv s.beacons (bytes.drop 1 ++ h.behind) (bytes.length - 3 : Int) h.now =
            .ok s'.beacons) := by
  rw [pass] at hpass
  split at hpass
  case h_1 => cases hpass
  case h_2 heard bytes hlisten =>
    refine ⟨heard, bytes, hlisten, ?_⟩
    split at hpass
    case isTrue => cases hpass
    split at hpass
    case isTrue => cases hpass
    split at hpass
    case h_1 => cases hpass
    case h_2 =>
      split at hpass
      case isTrue hholds =>
        split at hpass
        case h_1 => cases hpass
        case h_2 beacons hrecv =>
          cases hpass
          exact Or.inr ⟨hholds, hrecv⟩
      case isFalse hholds =>
        cases hpass
        exact Or.inl ⟨Bool.eq_false_iff.mpr hholds, rfl⟩

/-- A pass fails an assertion only with a beacon that fails it. -/
theorem pass_assertion {h : Hearing} {e : BeaconAbort}
    (hpass : s.pass t h = .error (.assertion e)) :
    ∃ heard bytes, t.listen h.turns h.c h.stream = .ok (heard, bytes) ∧
      holdsBeacon bytes = true ∧
      beaconRecv s.beacons (bytes.drop 1 ++ h.behind) (bytes.length - 3 : Int) h.now =
        .error e := by
  rw [pass] at hpass
  split at hpass
  case h_1 => cases hpass
  case h_2 heard bytes hlisten =>
    refine ⟨heard, bytes, hlisten, ?_⟩
    split at hpass
    case isTrue => cases hpass
    split at hpass
    case isTrue => cases hpass
    split at hpass
    case h_1 => cases hpass
    case h_2 =>
      split at hpass
      case isTrue hholds =>
        split at hpass
        case h_1 e' hrecv =>
          cases hpass
          exact ⟨hholds, hrecv⟩
        case h_2 => cases hpass
      case isFalse => cases hpass

end Virtloc

/-! ## The network of beacons -/

namespace VirtlocNetwork

variable {ι : Type} {t : SymbolTable} {energy : List NeighbourT → VLoc → UInt64}
  {id : ι → NodeId} {net net' : VirtlocNetwork ι}

/-- Every packet that was sent holds a beacon. -/
def Beaconing (net : VirtlocNetwork ι) : Prop :=
  ∀ i packet, (i, packet) ∈ net.air → ∃ beacon low high, packet = packetOf beacon low high

variable [DecidableEq ι]

theorem Beaconing.step (h : net.Beaconing) {a : VirtlocAction ι}
    (hstep : net.step t energy a = .ok net') : net'.Beaconing := by
  cases a with
  | interrupt i =>
    rw [VirtlocNetwork.step] at hstep
    split at hstep
    · cases hstep
    · cases hstep
      exact h
  | pass j hearing =>
    rw [VirtlocNetwork.step] at hstep
    split at hstep
    · cases hstep
    · cases hstep
      exact h
  | send i now tape outcomes tv1 =>
    rw [VirtlocNetwork.step] at hstep
    split at hstep
    case h_1 => cases hstep
    case h_2 s sent hsend =>
      cases hstep
      intro j packet hmem
      rcases List.mem_cons.mp hmem with heq | hmem
      · cases heq
        obtain ⟨-, ⟨low, high, hpacket⟩, -⟩ := Virtloc.send_ok hsend
        exact ⟨_, low, high, hpacket⟩
      · exact h j packet hmem

/-- A program that changes nothing but its loops changes no message. -/
theorem messages_update {j : ι} {s : Virtloc} (h : s.beacons = (net.programs j).beacons) :
    messages { net with programs := Function.update net.programs j s } = net.messages := by
  have hnodes : ∀ i, (Function.update net.programs j s i).beacons = (net.programs i).beacons := by
    intro i
    rcases eq_or_ne i j with rfl | hne
    · rw [Function.update_self, h]
    · rw [Function.update_of_ne hne]
  rw [messages, messages]
  dsimp only
  rw [funext hnodes]

/-- What a program does to its table it does to the one in the network of beacons. -/
theorem beacons_update (programs : ι → Virtloc) (j : ι) (s : Virtloc) :
    (fun i => (Function.update programs j s i).beacons) =
      Function.update (fun i => (programs i).beacons) j s.beacons := by
  funext i
  exact Function.apply_update (fun _ => Virtloc.beacons) programs j s i

omit [DecidableEq ι] in
/-- A beacon that is heard was sent: its reception in the network of beacons, if it is not one's
own. -/
theorem exists_beacon (hbeaconing : net.Beaconing) {i : ι} {bytes : List UInt8}
    (hmem : (i, bytes) ∈ net.air) (behind : List UInt8) :
    ∃ beacon rest, (i, beacon) ∈ net.messages.air ∧ bytes.drop 1 ++ behind = beacon ++ rest ∧
      (bytes.length - 3 : Int) = beacon.length := by
  obtain ⟨beacon, low, high, rfl⟩ := hbeaconing i bytes hmem
  refine ⟨beacon, low :: high :: behind, ?_, drop_packetOf beacon behind low high, ?_⟩
  · exact List.mem_map.mpr ⟨_, hmem, by rw [beaconIn_packetOf]⟩
  · rw [length_packetOf]
    omega

/-- The reception of a beacon in the network of beacons. -/
theorem messages_deliver {i j : ι} {beacon : List UInt8} (hair : (i, beacon) ∈ net.messages.air)
    (hij : i ≠ j) (rest : List UInt8) (now : Int) :
    net.messages.step energy (.deliver i beacon j rest now) =
      match beaconRecv (net.programs j).beacons (beacon ++ rest) beacon.length now with
      | .ok s => .ok { net.messages with nodes := Function.update net.messages.nodes j s }
      | .error e => .error (.assertion e) := by
  rw [Network.step, if_pos ⟨hair, hij⟩]
  rfl

/-- An action of the programs in which the check has done its work is a run of the network of
beacons. -/
theorem exists_run_of_step (hsound : net.messages.Sound id) (hbeaconing : net.Beaconing)
    {a : VirtlocAction ι} (hstep : net.Step t energy a net') :
    ∃ actions, Run (fun n a n' => n.step energy a = .ok n') net.messages actions net'.messages := by
  obtain ⟨hstep, hgenuine⟩ := hstep
  cases a with
  | interrupt i =>
    rw [VirtlocNetwork.step] at hstep
    split at hstep
    case h_1 => cases hstep
    case h_2 loop _ =>
      cases hstep
      have hsame : ({ net.programs i with loop } : Virtloc).beacons =
        (net.programs i).beacons := rfl
      exact ⟨[], messages_update hsame ▸ .nil _⟩
  | pass j hearing =>
    rw [VirtlocNetwork.step] at hstep
    split at hstep
    case h_1 => cases hstep
    case h_2 s hpass =>
      cases hstep
      obtain ⟨heard, bytes, hlisten, ⟨-, hsame⟩ | ⟨hholds, hrecv⟩⟩ := Virtloc.pass_ok hpass
      · exact ⟨[], messages_update hsame ▸ .nil _⟩
      obtain ⟨i, hmem⟩ := hgenuine heard bytes hlisten hholds
      obtain ⟨beacon, rest, hair, hbytes, hlength⟩ :=
        exists_beacon hbeaconing hmem hearing.behind
      rw [hbytes, hlength] at hrecv
      by_cases hij : i = j
      · subst hij
        obtain ⟨records, hbeacon, -⟩ := hsound.air i beacon hair
        have hown : id i = (net.programs i).beacons.identifier := (hsound.nodes i).identifier.symm
        rw [hbeacon.beaconRecv_self hown] at hrecv
        exact ⟨[], messages_update (Except.ok.inj hrecv).symm ▸ .nil _⟩
      · refine ⟨[.deliver i beacon j rest hearing.now], .cons ?_ (.nil _)⟩
        rw [messages_deliver hair hij, hrecv]
        dsimp only [messages]
        rw [beacons_update]
  | send i now tape outcomes tv1 =>
    rw [VirtlocNetwork.step] at hstep
    split at hstep
    case h_1 => cases hstep
    case h_2 s sent hsend =>
      cases hstep
      obtain ⟨hbeacons, ⟨low, high, hpacket⟩, -⟩ := Virtloc.send_ok hsend
      refine ⟨[.recalc i now tape, .prepare i (bufferLen - 1 : Nat)], .cons rfl (.cons ?_ (.nil _))⟩
      rw [Network.step, if_pos (by decide)]
      dsimp only [messages]
      rw [Function.update_self, beacons_update, hbeacons, List.map_cons, hpacket,
        beaconIn_packetOf, hbeacons]

/-! ## Every table -/

/-- An action, whatever is heard. -/
def ActionStep (t : SymbolTable) (energy : List NeighbourT → VLoc → UInt64)
    (net : VirtlocNetwork ι) (a : VirtlocAction ι) (net' : VirtlocNetwork ι) : Prop :=
  net.step t energy a = .ok net'

omit [DecidableEq ι] in
/-- A pass keeps a table in order. -/
theorem sound_of_pass {s s' : Virtloc} {nodeId : NodeId} {hearing : Hearing}
    (h : s.beacons.Sound nodeId) (hpass : s.pass t hearing = .ok s') :
    s'.beacons.Sound nodeId := by
  obtain ⟨_, _, -, ⟨-, hsame⟩ | ⟨-, hrecv⟩⟩ := Virtloc.pass_ok hpass
  · rwa [hsame]
  · exact h.recv hrecv

/-- So does every action, for all programs. -/
theorem sound_of_actionStep (h : ∀ i, (net.programs i).beacons.Sound (id i))
    {a : VirtlocAction ι} (hstep : net.ActionStep t energy a net') :
    ∀ i, (net'.programs i).beacons.Sound (id i) := by
  have hupdate : ∀ j s, s.beacons.Sound (id j) →
      ∀ i, (Function.update net.programs j s i).beacons.Sound (id i) := fun j s hs =>
    (Function.forall_update_iff net.programs fun i s => s.beacons.Sound (id i)).mpr
      ⟨hs, fun i _ => h i⟩
  rw [ActionStep] at hstep
  cases a with
  | interrupt j =>
    rw [VirtlocNetwork.step] at hstep
    split at hstep
    case h_1 => cases hstep
    case h_2 =>
      cases hstep
      exact hupdate j _ (h j)
  | pass j hearing =>
    rw [VirtlocNetwork.step] at hstep
    split at hstep
    case h_1 => cases hstep
    case h_2 s hpass =>
      cases hstep
      exact hupdate j s (sound_of_pass (h j) hpass)
  | send j now tape outcomes tv1 =>
    rw [VirtlocNetwork.step] at hstep
    split at hstep
    case h_1 => cases hstep
    case h_2 s sent hsend =>
      cases hstep
      refine hupdate j s ?_
      rw [(Virtloc.send_ok hsend).1]
      exact (h j).recalc

/-! ## Every run -/

section Runs

variable {tapes : ι → Nat → Fin randRange} {tv0 tv1 : ι → TimeVal} {endtime : ι → Int}
  {actions : List (VirtlocAction ι)}

/-- A step of the network of beacons as a relation. -/
def MessageStep (energy : List NeighbourT → VLoc → UInt64) (n : Network ι) (a : NetworkAction ι)
    (n' : Network ι) : Prop := n.step energy a = .ok n'

theorem sound_of_messages (hid : Function.Injective id) {messages : List (NetworkAction ι)}
    {n : Network ι} (h : Run (MessageStep energy) (Network.start id tapes) messages n) :
    n.Sound id :=
  h.keeps (I := Network.Sound id) (fun _ _ _ hs hstep => hs.step hid hstep) (.start id tapes)

/-- The run of the network of beacons behind one of the programs. -/
theorem exists_messages_of_run (hid : Function.Injective id)
    (h : Run (Step t energy) (start id tapes tv0 tv1 endtime) actions net) :
    net.Beaconing ∧ ∃ messages,
      Run (MessageStep energy) (Network.start id tapes) messages net.messages := by
  refine h.keeps (I := fun net => net.Beaconing ∧ ∃ messages,
    Run (MessageStep energy) (Network.start id tapes) messages net.messages) ?_
    ⟨fun _ _ hmem => absurd hmem List.not_mem_nil, [], .nil _⟩
  rintro net a net' ⟨hbeaconing, messages, hrun⟩ hstep
  obtain ⟨more, hmore⟩ := exists_run_of_step (sound_of_messages hid hrun) hbeaconing hstep
  exact ⟨hbeaconing.step hstep.1, messages ++ more, hrun.append hmore⟩

/-- Whatever the programs hear, their tables are in order. -/
theorem sound_of_run (h : Run (ActionStep t energy) (start id tapes tv0 tv1 endtime) actions net)
    (i : ι) : (net.programs i).beacons.Sound (id i) :=
  h.keeps (I := fun net => ∀ i, (net.programs i).beacons.Sound (id i))
    (fun _ _ _ hs hstep => sound_of_actionStep hs hstep) (fun i => .init (id i) (tapes i)) i

/-- The tables of the programs are those of a run of the network of beacons, and if there are no
more programs than a table has entries, what comes next fails no assertion of `beacon_recv`. -/
theorem virtloc_run_messages [Fintype ι] (hid : Function.Injective id)
    (h : Run (Step t energy) (start id tapes tv0 tv1 endtime) actions net) :
    (∃ messages, Run (MessageStep energy) (Network.start id tapes) messages net.messages) ∧
      (Fintype.card ι ≤ maxNeigh → ∀ a, net.Genuine t a →
        ∀ e, net.step t energy a ≠ .error (.assertion e)) := by
  obtain ⟨hbeaconing, messages, hrun⟩ := exists_messages_of_run hid h
  refine ⟨⟨messages, hrun⟩, fun hcard a hgenuine e herror => ?_⟩
  cases a with
  | interrupt i =>
    rw [VirtlocNetwork.step] at herror
    split at herror
    · cases herror
    · cases herror
  | send i now tape outcomes tv =>
    rw [VirtlocNetwork.step] at herror
    split at herror
    case h_1 stop hsend =>
      cases herror
      exact Virtloc.send_ne_assertion hsend
    case h_2 => cases herror
  | pass j hearing =>
    rw [VirtlocNetwork.step] at herror
    split at herror
    case h_1 stop hpass =>
      cases herror
      obtain ⟨heard, bytes, hlisten, hholds, hrecv⟩ := Virtloc.pass_assertion hpass
      obtain ⟨i, hmem⟩ := hgenuine heard bytes hlisten hholds
      obtain ⟨beacon, rest, hair, hbytes, hlength⟩ :=
        exists_beacon hbeaconing hmem hearing.behind
      rw [hbytes, hlength] at hrecv
      by_cases hij : i = j
      · subst hij
        have hsound := sound_of_messages hid hrun
        obtain ⟨records, hbeacon, -⟩ := hsound.air i beacon hair
        have hown : id i = (net.programs i).beacons.identifier := (hsound.nodes i).identifier.symm
        rw [hbeacon.beaconRecv_self hown] at hrecv
        cases hrecv
      · refine Network.noAssertion_of_card_le hcard hid hrun
          (.deliver i beacon j rest hearing.now) e ?_
        rw [messages_deliver hair hij, hrecv]
    case h_2 => cases herror

end Runs

/-! ### Two programs -/

/-- A pass without a packet, at some time. -/
def quietPass (j : Bool) (tv2 : TimeVal) : VirtlocAction Bool :=
  .pass j { turns := [], c := 0, stream := [], behind := List.replicate 1024 0, tv2,
            rand := zeroTape 0, now := 0 }

/-- Two programs that begin at the same time. -/
def twoPrograms : VirtlocNetwork Bool :=
  start (fun i => if i then 1 else 0) (fun _ => zeroTape) (fun _ => .at 0 0) (fun _ => .at 0 0)
    fun _ => 60

/-- A step if the check has done its work. -/
def genuineStep (t : SymbolTable) (energy : List NeighbourT → VLoc → UInt64)
    (net : VirtlocNetwork ι) (a : VirtlocAction ι) : Except VirtlocStop (VirtlocNetwork ι) :=
  if net.Genuine t a then net.step t energy a else .error .disabled

theorem step_of_genuineStep {a : VirtlocAction ι} (h : net.genuineStep t energy a = .ok net') :
    net.Step t energy a net' := by
  rw [genuineStep] at h
  split at h
  case isTrue hgenuine => exact ⟨h, hgenuine⟩
  case isFalse => cases h

/-- After a quiet turn program 1 sends. -/
def firstSending : List (VirtlocAction Bool) := [
  quietPass true (.at 1 0),
  .send true 1 zeroTape [some 1000] (.at 1 100)]

/-- A packet comes in alone, in two reads. -/
def hearingOf (packet wire : List UInt8) : Hearing where
  turns := [⟨1, some 1⟩, ⟨1, some 1000⟩]
  c := 0
  stream := wire
  behind := List.replicate (bufferLen - packet.length) 0
  tv2 := .at 1 200
  rand := zeroTape 0
  now := 1

/-- The latest packet comes in. -/
def hearLatest (net : VirtlocNetwork Bool) : VirtlocAction Bool :=
  let packet := (net.air.map Prod.snd).headD []
  .pass false (hearingOf packet ((serialSymbols.sendFrame packet).toOption.getD []))

theorem virtloc_run_messages_twoPrograms :
    ∃ net : VirtlocNetwork Bool,
      Run (Step serialSymbols fun _ _ => 0) twoPrograms firstSending net ∧ net.air.length = 1 ∧
      ∀ e, net.step serialSymbols (fun _ _ => 0) net.hearLatest ≠ .error (.assertion e) := by
  obtain ⟨net, hrun, hair, hgenuine⟩ := Run.exists_of_foldlM
    (f := genuineStep serialSymbols fun _ _ => 0) firstSending (s := twoPrograms)
    (P := fun net => net.air.length = 1 ∧ net.Genuine serialSymbols net.hearLatest)
    (by decide +kernel)
  have hsteps := hrun.mono fun _ _ _ => step_of_genuineStep
  exact ⟨net, hsteps, hair, (virtloc_run_messages (by decide) hsteps).2 (by decide) _ hgenuine⟩

end VirtlocNetwork

end OldRadio.First
