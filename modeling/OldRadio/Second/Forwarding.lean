import OldRadio.Second.NodeEffects

/-!
# Forwarding a data packet

`node_route_test` makes a data packet with `NODE_TTL_MAX` and hands it on; every
relay it is addressed to lowers the field and hands it on again. A chain is what
the nodes do that come to hold the packet one after the other, with whatever
tables and locations they have by then. Nothing tests the field, so the packet
is transmitted as often as there are nodes that pass it on.
-/

namespace OldRadio.Second

open Library
open Node (M)

/-! ## Chains -/

/-- A node as it is when it comes to hold the packet. -/
structure Holder where
  /-- The node with its table and location. -/
  node : Node
  /-- The time. -/
  vtime : VTime

/-- A callback that holds every packet sent and remembers the pointers in order. -/
def chainCallback : NodeCallback (List Nat) := fun _ _ packet? _ =>
  match packet? with
  | some ptr => do
    packetClone ptr
    modify fun w => w.setFront (w.front ++ [ptr])
  | none => return ()

/-- A relay receives the `k`-th packet transmitted, if there is one. -/
def chainRelay (relay : Holder) (k : Nat) : M (List Nat) Unit := do
  let w ← get
  match w.front[k]? with
  | some ptr => do
    let _ ← nodeReceive chainCallback relay.node relay.vtime ptr
    return ()
  | none => return ()

/-- The first holder makes the packet; the next `n` receive it one after the other. -/
def chainRun (holders : Nat → Holder) : Nat → M (List Nat) Unit
  | 0 => nodeRouteTest chainCallback (holders 0).node (holders 0).vtime
  | n + 1 => do
    chainRun holders n
    chainRelay (holders (n + 1)) n

/-- Where a node sends a packet for node 0. -/
def nextHop (node : Node) : NodeId := nodeRouteMfr node 0 locZero 1

/-- The `k`-th holder passes the packet on: it knows a next hop and, unless it made the packet, it
is the hop chosen by the holder before it and not node 0. -/
def PassesOn (holders : Nat → Holder) : Nat → Prop
  | 0 => nextHop (holders 0).node ≠ nodeIdInvalid
  | k + 1 => nextHop (holders (k + 1)).node ≠ nodeIdInvalid ∧
      (holders (k + 1)).node.id = nextHop (holders k).node ∧ (holders (k + 1)).node.id ≠ 0

instance (holders : Nat → Holder) (k : Nat) : Decidable (PassesOn holders k) :=
  match k with
  | 0 => inferInstanceAs (Decidable (_ ≠ _))
  | _ + 1 => inferInstanceAs (Decidable (_ ∧ _ ∧ _))

/-- The field `ttl` of the `k`-th packet transmitted. -/
def ttlAt : Nat → Int32
  | 0 => nodeTtlMax - 1
  | k + 1 => ttlAt k - 1

/-- The `k`-th packet transmitted. -/
def chainData (holders : Nat → Holder) (k : Nat) : PacketData where
  packetType := packetTypeData
  src := (holders 0).node.id
  dst := 0
  hop := nextHop (holders k).node
  srcloc := (holders 0).node.virtloc
  dstloc := locZero
  ttl := ttlAt k
  vtime := (holders 0).vtime

/-- The state of a chain after its first `n` holders: every packet transmitted is held, and there
is one for each holder up to the first that did not pass it on. -/
structure ChainState (holders : Nat → Holder) (n : Nat) (w : World (List Nat)) : Prop where
  /-- No holder transmits twice. -/
  length_le : w.front.length ≤ n
  /-- The packets transmitted. -/
  held : ∀ k ptr, w.front[k]? = some ptr → ∃ p, w.heap[ptr]? = some p ∧ p.refcount ≠ 0 ∧
    p.data = packetDataLayout.encode (chainData holders k)
  /-- Who transmitted one passed it on. -/
  passed : ∀ k < w.front.length, PassesOn holders k
  /-- Who did not stopped the chain. -/
  stopped : w.front.length < n → ¬ PassesOn holders w.front.length

variable {holders : Nat → Holder} {bad : Abort → Prop}

/-! ## One holder -/

/-- A new packet that is sent is held once afterwards. -/
theorem wp_nodeSendData_chain {node : Node} {vtime : VTime} {data : PacketData}
    {w : World (List Nat)} {after : Unit → World (List Nat) → Prop} :
    Wp (nodeSendData chainCallback node vtime data) after bad w ↔
      after () ((w.setFront (w.front ++ [w.heap.length])).push
        { refcount := 1, data := packetDataLayout.encode data }) := by
  rw [nodeSendData, wp_bind, wp_packetAlloc (packetDataLayout_encode_ne_nil data), wp_bind,
    chainCallback, wp_bind, packetClone, wp_bind, wp_packetRead_iff (w.push_heap _)]
  simp only [wp_modify, World.push_poke, World.push_setFront, World.push_front]
  simpa using wp_packetFree_push (w.setFront (w.front ++ [w.heap.length])) _ 1

/-- A node with a next hop transmits one packet, which is held from then on. -/
theorem wp_nodeForwardData_chain {node : Node} {vtime : VTime} {data : PacketData}
    {w : World (List Nat)} {after : Unit → World (List Nat) → Prop} :
    Wp (nodeForwardData chainCallback node vtime data) after bad w ↔
      if nodeRouteMfr node data.dst data.dstloc 1 = nodeIdInvalid then after () w
      else after () ((w.setFront (w.front ++ [w.heap.length])).push
        { refcount := 1
          data := packetDataLayout.encode
            { data with
              ttl := data.ttl - 1, hop := nodeRouteMfr node data.dst data.dstloc 1 } }) := by
  rw [nodeForwardData]
  split
  · exact Iff.rfl
  · exact wp_nodeSendData_chain

/-! ## The chain -/

section Chain

variable {n k : Nat} {w : World (List Nat)}

/-- The start of a chain: nothing is transmitted. -/
theorem ChainState.zero (h : w.front = []) : ChainState holders 0 w where
  length_le := by rw [h, List.length_nil]
  held k ptr hk := by simp [h] at hk
  passed k hk := by simp [h] at hk
  stopped hlt := absurd hlt (Nat.not_lt_zero _)

/-- A holder that passes the packet on transmits one more. -/
theorem ChainState.push (h : ChainState holders n w) (hn : w.front.length = n)
    (hpass : PassesOn holders n) :
    ChainState holders (n + 1) ((w.setFront (w.front ++ [w.heap.length])).push
      { refcount := 1, data := packetDataLayout.encode (chainData holders n) }) where
  length_le := by simp [hn]
  held k ptr hk := by
    rw [World.push_front, World.setFront_front] at hk
    rcases Nat.lt_or_ge k w.front.length with hlt | hge
    · rw [List.getElem?_append_left hlt] at hk
      obtain ⟨p, hp, hheld, hdata⟩ := h.held k ptr hk
      refine ⟨p, ?_, hheld, hdata⟩
      exact (List.getElem?_append_left (List.getElem?_eq_some_iff.mp hp).1).trans hp
    · rw [List.getElem?_append_right hge, List.getElem?_singleton] at hk
      split at hk
      · rename_i hzero
        obtain rfl : k = n := by omega
        cases hk
        exact ⟨_, World.push_heap _ _, one_ne_zero, rfl⟩
      · cases hk
  passed k hk := by
    rw [World.push_front, World.setFront_front, List.length_append, List.length_singleton] at hk
    rcases Nat.lt_succ_iff_lt_or_eq.mp hk with hlt | rfl
    · exact h.passed k hlt
    · exact hn ▸ hpass
  stopped hlt := by simp [hn] at hlt

/-- A holder that does not pass the packet on, or gets none, leaves everything as it is. -/
theorem ChainState.same (h : ChainState holders n w)
    (hstop : w.front.length = n → ¬ PassesOn holders n) : ChainState holders (n + 1) w where
  length_le := Nat.le_succ_of_le h.length_le
  held := h.held
  passed := h.passed
  stopped hlt := by
    rcases Nat.lt_succ_iff_lt_or_eq.mp hlt with hless | heq
    · exact h.stopped hless
    · exact heq ▸ hstop heq

/-- What the node that makes the packet does. -/
theorem wp_chainRun_zero (h : ChainState holders 0 w) :
    Wp (chainRun holders 0) (fun _ => ChainState holders 1) (fun _ => False) w := by
  have hn : w.front.length = 0 := Nat.le_zero.mp h.length_le
  rw [chainRun, nodeRouteTest, wp_nodeForwardData_chain]
  split
  · rename_i hnone
    exact h.same fun _ hpass => hpass hnone
  · rename_i hsome
    exact h.push hn hsome

/-- What a relay does. -/
theorem wp_chainRelay (h : ChainState holders (n + 1) w) :
    Wp (chainRelay (holders (n + 1)) n) (fun _ => ChainState holders (n + 2)) (fun _ => False)
      w := by
  rw [chainRelay, wp_bind, wp_get]
  cases hptr : w.front[n]? with
  | none =>
    have hlen := List.getElem?_eq_none_iff.mp hptr
    exact h.same fun hfull => by omega
  | some ptr =>
    have hfull : w.front.length = n + 1 := by
      have hlt := (List.getElem?_eq_some_iff.mp hptr).1
      have hle := h.length_le
      omega
    obtain ⟨p, hp, hheld, hdata⟩ := h.held n ptr hptr
    have hdecode : packetDataLayout.decode p.data = chainData holders n := by
      rw [hdata, packetDataLayout.decode_encode_self]
    have htype : p.data.headD 0 = packetTypeData := by
      rw [hdata, headD_encode]
      rfl
    have hlength : packetDataLayout.size ≤ p.data.length := by
      rw [hdata, packetDataLayout.length_encode]
    dsimp only
    rw [wp_bind, wp_nodeReceive_data hp hheld htype hlength, hdecode]
    split
    · rename_i hmine
      rw [wp_nodeForwardData_chain]
      split
      · rename_i hnone
        exact h.same fun _ hpass => hpass.1 hnone
      · rename_i hsome
        exact h.push hfull ⟨hsome, hmine.1.symm, Ne.symm hmine.2⟩
    · rename_i hother
      exact h.same fun _ hpass => hother ⟨hpass.2.1.symm, Ne.symm hpass.2.2⟩

/-- A chain never stops the program, and transmits one packet for each holder up to the first that
does not pass it on. -/
theorem wp_chainRun (holders : Nat → Holder) (n : Nat) (h : w.front = []) :
    Wp (chainRun holders n) (fun _ => ChainState holders (n + 1)) (fun _ => False) w := by
  induction n with
  | zero => exact wp_chainRun_zero (.zero h)
  | succ n ih =>
    rw [chainRun, wp_bind]
    exact ih.imp fun _ _ h' => wp_chainRelay h'

/-- As long as the field is not exhausted it counts the transmissions down. -/
theorem ttlAt_toInt : ∀ k ≤ 100, (ttlAt k).toInt = nodeTtlMax.toInt - 1 - k := by
  decide +kernel

/-- If the first `NODE_TTL_MAX + 1` holders pass the packet on, there are as many transmissions. -/
theorem ChainState.exceeds (h : ChainState holders n w) (hn : 100 < n)
    (hpass : ∀ k ≤ 100, PassesOn holders k) : 100 < w.front.length := by
  by_contra hshort
  exact h.stopped (by omega) (hpass _ (by omega))

/-- If one of them does not, there are at most `NODE_TTL_MAX`. -/
theorem ChainState.within (h : ChainState holders n w) (hk : k ≤ 100)
    (hstop : ¬ PassesOn holders k) : w.front.length ≤ 100 := by
  by_contra hlong
  exact hstop (h.passed k (by omega))

/-- The packets transmitted are the ones of the chain. -/
theorem ChainState.ttl (h : ChainState holders n w) {ptr : Nat} (hk : w.front[k]? = some ptr) :
    ∃ p, w.heap[ptr]? = some p ∧ (packetDataLayout.decode p.data).ttl = ttlAt k := by
  obtain ⟨p, hp, -, hdata⟩ := h.held k ptr hk
  refine ⟨p, hp, ?_⟩
  rw [hdata, packetDataLayout.decode_encode_self]
  rfl

/-- The state after a chain. -/
theorem chainRun_ok (holders : Nat → Holder) (n : Nat) (h : w.front = []) :
    ∃ w', chainRun holders n w = .ok ((), w') ∧ ChainState holders (n + 1) w' := by
  obtain ⟨_, w', hok, hstate⟩ := (wp_chainRun holders n h).exists_ok
  exact ⟨w', hok, hstate⟩

end Chain

/-- Whatever tables and locations the nodes have when they come to hold the packet, it is
transmitted at most `NODE_TTL_MAX` times, and never with an exhausted `ttl`, exactly when one of
the first `NODE_TTL_MAX + 1` holders does not pass it on. -/
theorem dataPacket_ttl_iff (holders : Nat → Holder) (w : World (List Nat)) :
    ((∀ n, Wp (chainRun holders n)
        (fun _ w' => (w'.front.length : Int) ≤ nodeTtlMax.toInt) (fun _ => False)
        (w.setFront [])) ↔
      ∃ k : Nat, (k : Int) ≤ nodeTtlMax.toInt ∧ ¬ PassesOn holders k) ∧
    ((∀ n, Wp (chainRun holders n)
        (fun _ w' => ∀ ptr ∈ w'.front, ∃ p, w'.heap[ptr]? = some p ∧
          0 ≤ (packetDataLayout.decode p.data).ttl) (fun _ => False) (w.setFront [])) ↔
      ∃ k : Nat, (k : Int) ≤ nodeTtlMax.toInt ∧ ¬ PassesOn holders k) := by
  have hmax : nodeTtlMax.toInt = 100 := by decide
  have hrun : ∀ n, Wp (chainRun holders n) (fun _ => ChainState holders (n + 1)) (fun _ => False)
      (w.setFront []) := fun n => wp_chainRun holders n rfl
  -- A chain that goes on too long, with its last transmission.
  have hlong : (¬ ∃ k : Nat, (k : Int) ≤ nodeTtlMax.toInt ∧ ¬ PassesOn holders k) →
      ∃ n w', chainRun holders n (w.setFront []) = .ok ((), w') ∧
        ChainState holders (n + 1) w' ∧ 100 < w'.front.length := by
    intro hall
    obtain ⟨n, hn⟩ : ∃ n, 100 ≤ n := ⟨100, le_rfl⟩
    obtain ⟨w', hok, hstate⟩ := chainRun_ok holders n (w.setFront_front [])
    refine ⟨n, w', hok, hstate, hstate.exceeds (by omega) fun k hk => ?_⟩
    by_contra hstop
    exact hall ⟨k, by omega, hstop⟩
  constructor
  · constructor
    · intro h
      by_contra hall
      obtain ⟨n, w', hok, -, hlen⟩ := hlong hall
      have hle := (h n).of_ok hok
      omega
    · rintro ⟨k, hk, hstop⟩ n
      refine (hrun n).imp fun _ w' hw' => ?_
      have hle := hw'.within (by omega) hstop
      omega
  · constructor
    · intro h
      by_contra hall
      obtain ⟨n, w', hok, hstate, hlen⟩ := hlong hall
      obtain ⟨ptr, hptr⟩ : ∃ ptr, w'.front[100]? = some ptr :=
        ⟨w'.front[100], List.getElem?_eq_getElem (by omega)⟩
      obtain ⟨p, hp, hpos⟩ := (h n).of_ok hok ptr (List.mem_of_getElem? hptr)
      obtain ⟨p', hp', httl⟩ := hstate.ttl hptr
      obtain rfl : p = p' := Option.some.inj (hp.symm.trans hp')
      rw [httl] at hpos
      exact absurd hpos (by decide +kernel)
    · rintro ⟨k, hk, hstop⟩ n
      refine (hrun n).imp fun _ w' hw' ptr hptr => ?_
      obtain ⟨j, hj⟩ := List.mem_iff_getElem?.mp hptr
      obtain ⟨p, hp, httl⟩ := hw'.ttl hj
      have hle := hw'.within (by omega) hstop
      have hlt := (List.getElem?_eq_some_iff.mp hj).1
      have hvalue := ttlAt_toInt j (by omega)
      refine ⟨p, hp, ?_⟩
      rw [httl, Int32.le_iff_toInt_le, hvalue, hmax]
      change (0 : Int) ≤ _
      omega

/-- A node on a line, at the place of its number, that knows the node before it. -/
def lineNode (i : Nat) : Node where
  id := UInt16.ofNat i
  status := .awake
  neighTable :=
    { entries := [{
        neigh :=
          { id := UInt16.ofNat (i - 1), stratum := 1
            loc := { x := Int32.ofNat (i - 1), y := 0, z := 0 } }
        expiry := 1 }]
      length_le := by rw [List.length_singleton]; decide }
  virtloc := { x := Int32.ofNat i, y := 0, z := 0 }
  floodTimeout := 0
  wakeTime := 0

/-- The packet of the last of 102 nodes on a line on its way to node 0. -/
def lineHolders (k : Nat) : Holder := { node := lineNode (101 - k), vtime := 1 }

theorem passesOn_lineHolders : ∀ k ≤ 100, PassesOn lineHolders k := by
  decide +kernel

/-- On a line of 102 nodes the packet is transmitted more than `NODE_TTL_MAX` times. -/
theorem dataPacket_ttl_line :
    ¬ ∀ (holders : Nat → Holder) (w : World (List Nat)) n, Wp (chainRun holders n)
      (fun _ w' => (w'.front.length : Int) ≤ nodeTtlMax.toInt) (fun _ => False)
      (w.setFront []) := by
  intro h
  let w : World (List Nat) :=
    { tape := tapeOf [], drawn := 0, heap := [], dims := 3, uninit := fun _ => [], front := [] }
  have hmax : nodeTtlMax.toInt = 100 := by decide
  obtain ⟨n, hn⟩ : ∃ n, 100 ≤ n := ⟨100, le_rfl⟩
  obtain ⟨w', hok, hstate⟩ := chainRun_ok lineHolders n (w.setFront_front [])
  have hlen := hstate.exceeds (by omega) passesOn_lineHolders
  have hle := (h lineHolders w n).of_ok hok
  omega

end OldRadio.Second
