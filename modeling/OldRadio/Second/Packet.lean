/-!
# Failures and packets

The source stops at a failed `assert`, and an access outside an object has no
defined outcome. Both end a modelled run, under a name of their own each, so
that a theorem can say which of them cannot happen.
-/

namespace OldRadio.Second

/-- The ways a run of the program stops short. -/
inductive Abort where
  /-- `assert(length)` in `packet_new`. -/
  | packetLength
  /-- `assert(p && p->refcount)` in `packet_clone` and `packet_free`, or a read of a freed
  packet. -/
  | packetFreed
  /-- `assert(nbyt >= CRC16_LEN)` in `crc16_set`. -/
  | crcLength
  /-- `assert(packet->length <= RADIO_MTU)` in `radio_send`. -/
  | radioMtu
  /-- The length assertion of `node_receive_beacon`. -/
  | beaconLength
  /-- The length assertion of `node_receive_data`. -/
  | dataLength
  /-- `assert(neigh_table->nneigh < NEIGH_MAX)` in `neigh_table_insert`. -/
  | neighTableFull
  /-- `assert(queue->size < QUEUE_HEAP_SIZE_MAX)` in `_queue_resize`. -/
  | queueFull
  /-- `assert (x < queue->nevents)` in `_queue_heapify`. -/
  | queueIndex
  /-- `assert(topo->entries < TOPO_MAXENTRIES)` in `topo_insert`. -/
  | topoFull
  /-- `assert(dims >= 1 && dims <= 3)` in `loc_set_dims`. -/
  | locDims
  /-- `assert(vtime < Timer)` in `serial_callback`. -/
  | timerOrder
  /-- A read or write outside an object, or of memory never written. -/
  | outOfBounds
  deriving DecidableEq, Repr

/-- An access that must succeed. -/
def access {α : Type} : Option α → Except Abort α
  | some x => .ok x
  | none => .error .outOfBounds

@[simp] theorem access_some {α : Type} (x : α) : access (some x) = .ok x := rfl

@[simp] theorem ok_bind {α β : Type} (x : α) (f : α → Except Abort β) :
    ((Except.ok x : Except Abort α) >>= f) = f x := rfl

@[simp] theorem error_bind {α β : Type} (e : Abort) (f : α → Except Abort β) :
    ((Except.error e : Except Abort α) >>= f) = .error e := rfl

theorem bind_eq_ok {α β : Type} {x : Except Abort α} {f : α → Except Abort β} {b : β}
    (h : (x >>= f) = .ok b) : ∃ a, x = .ok a ∧ f a = .ok b := by
  cases x with
  | ok a => exact ⟨a, rfl, h⟩
  | error e => cases h

/-- A computation of two parts fails in the first or in the second. -/
theorem bind_eq_error {α β : Type} {x : Except Abort α} {f : α → Except Abort β} {e : Abort}
    (h : (x >>= f) = .error e) : x = .error e ∨ ∃ a, x = .ok a ∧ f a = .error e := by
  cases x with
  | ok a => exact Or.inr ⟨a, rfl, h⟩
  | error e' =>
    rw [error_bind] at h
    exact Or.inl (congrArg Except.error (Except.error.inj h))

theorem access_eq_error {α : Type} {x : Option α} {e : Abort} (h : access x = .error e) :
    e = .outOfBounds := by
  cases x with
  | none => exact (Except.error.inj h).symm
  | some a => cases h

/-- A computation over a list fails where one of its parts does. -/
theorem error_of_mapM {α β : Type} {f : α → Except Abort β} {p : Abort → Prop}
    (hf : ∀ x e, f x = .error e → p e) {xs : List α} {e : Abort}
    (h : xs.mapM f = .error e) : p e := by
  induction xs with
  | nil => cases h
  | cons x xs ih =>
    rw [List.mapM_cons] at h
    rcases bind_eq_error h with h | ⟨y, -, h⟩
    · exact hf x e h
    rcases bind_eq_error h with h | ⟨ys, -, h⟩
    · exact ih h
    · cases h

/-- A computation over a list succeeds if each of its parts does. -/
theorem exists_mapM_ok {α β : Type} {f : α → Except Abort β} {xs : List α}
    (h : ∀ x ∈ xs, ∃ y, f x = .ok y) : ∃ ys, xs.mapM f = .ok ys := by
  induction xs with
  | nil => exact ⟨[], rfl⟩
  | cons x xs ih =>
    obtain ⟨y, hy⟩ := h x List.mem_cons_self
    obtain ⟨ys, hys⟩ := ih fun z hz => h z (List.mem_cons_of_mem x hz)
    exact ⟨y :: ys, by rw [List.mapM_cons, hy, ok_bind, hys, ok_bind]; rfl⟩

/-- A loop over a list fails where one of its turns does. -/
theorem error_of_foldlM {α σ : Type} {f : σ → α → Except Abort σ} {p : Abort → Prop}
    (hf : ∀ s x e, f s x = .error e → p e) {xs : List α} {s : σ} {e : Abort}
    (h : xs.foldlM f s = .error e) : p e := by
  induction xs generalizing s with
  | nil => cases h
  | cons x xs ih =>
    rw [List.foldlM_cons] at h
    rcases bind_eq_error h with h | ⟨t, -, h⟩
    · exact hf s x e h
    · exact ih h

/-- What cannot fail does not change a failure. -/
theorem bind_pure_eq_error {α β : Type} {x : Except Abort α} {f : α → β} {e : Abort} :
    (x >>= fun a => pure (f a)) = .error e ↔ x = .error e := by
  cases x with
  | ok a => exact iff_of_false (fun h => by cases h) (fun h => by cases h)
  | error e' => rw [error_bind, Except.error.injEq, Except.error.injEq]

theorem pure_eq_ok {α : Type} (x : α) : (pure x : Except Abort α) = .ok x := rfl

/-- A `packet_t`; its `length` is the length of `data`. -/
structure Packet where
  /-- Number of holders; the packet is freed when it reaches zero. -/
  refcount : Nat
  /-- The bytes copied in by `packet_new`. -/
  data : List UInt8
  deriving DecidableEq, Repr

/-- `packet_new`: copy `length` bytes into a packet held once. -/
def packetNew (data : List UInt8) : Except Abort Packet :=
  if data.length = 0 then .error .packetLength else .ok { refcount := 1, data }

theorem packetNew_of_ne_nil {data : List UInt8} (h : data ≠ []) :
    packetNew data = .ok { refcount := 1, data } := by
  simp [packetNew, h]

@[simp] theorem packetNew_nil : packetNew [] = .error .packetLength := rfl

end OldRadio.Second
