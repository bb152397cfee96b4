import Mathlib.Data.List.Nodup

/-!
# async_toolkit: the connection pool

This module models `network::Connection` and `network::ConnectionPool` of
`include/async_toolkit/network/connection_pool.hpp`.

**State.**  Every `Connection` object made has an id (its place in `conns`), its descriptor,
`connected_`, and whether a `shared_ptr` to it is left.  The pool keeps `max_size_` and the
queue `idle_connections_` of ids, front first.  The `close(fd_)` calls are recorded by
connection, in order; so are, as ghost state, the connections the pool took in and those
`acquire` handed out.

**Steps.**  The pool's calls hold `mutex_`, so a run is a sequence of calls: making a
connection, `acquire`, `release` and `add_connection` (one body), `disconnect` on a
connection, and a connection's destructor when its last `shared_ptr` goes.  A call on a
connection is made through a `shared_ptr` to it, so the connection is alive; its destructor
runs only once the pool holds no `shared_ptr` to it.  `release` reads `is_connected()`
before it locks; a `disconnect` racing with it would be a data race on the plain `bool`
`connected_`, so `release` is one step here.

**Results.**  `connection_pool_fifo_bounded`: along every run, `acquire` hands connections
out in the order the pool took them in, the queue never holds more than `max_size_`, and
every queued connection is alive.  `connection_closed_once`: a connection's descriptor is
closed at most once, exactly when it is disconnected, whether by `disconnect` or by its
destructor.  Nothing keeps a queued connection connected: another holder may disconnect it,
and `acquire` hands it out all the same.
-/

namespace AsyncToolkit
namespace Network

/-- A `Connection` object: `fd_`, `connected_`, and whether a `shared_ptr` to it is left. -/
structure Connection where
  fd : Nat
  connected : Bool
  alive : Bool
  deriving DecidableEq, Repr

/-- The pool and the connections made: `max_size_`, `idle_connections_`, every `Connection`
by id, and the `close` calls by connection; `accepted` and `acquired` are ghost logs. -/
structure ConnectionPool where
  maxSize : Nat
  idle : List Nat
  conns : List Connection
  closes : List Nat
  accepted : List Nat
  acquired : List Nat
  deriving DecidableEq, Repr

namespace ConnectionPool

/-- `ConnectionPool(max_size)`, no connection made yet. -/
def new (maxSize : Nat) : ConnectionPool := ⟨maxSize, [], [], [], [], []⟩

/-- `std::make_shared<Connection>(fd, loop)`: `connected_(true)`. -/
def make (s : ConnectionPool) (fd : Nat) : ConnectionPool :=
  { s with conns := s.conns ++ [⟨fd, true, true⟩] }

/-- `conn->is_connected()`. -/
def isConnected (s : ConnectionPool) (id : Nat) : Bool :=
  (s.conns[id]?.map (·.connected)).getD false

/-- `Connection::disconnect()`: `close(fd_)` only while `connected_`. -/
def disconnect (s : ConnectionPool) (id : Nat) : ConnectionPool :=
  if s.isConnected id then
    { s with conns := s.conns.modify (fun c => { c with connected := false }) id,
             closes := s.closes ++ [id] }
  else s

/-- `~Connection()`: `disconnect()`, and the object is gone. -/
def destroy (s : ConnectionPool) (id : Nat) : ConnectionPool :=
  let s := s.disconnect id
  { s with conns := s.conns.modify (fun c => { c with alive := false }) id }

/-- `acquire()`: the front of `idle_connections_`, or `nullptr`. -/
def acquire (s : ConnectionPool) : Option Nat × ConnectionPool :=
  match s.idle with
  | c :: rest => (some c, { s with idle := rest, acquired := s.acquired ++ [c] })
  | [] => (none, s)

/-- The body of `release(conn)` and of `add_connection(conn)`: a connected connection joins
the back of the queue while it holds fewer than `max_size_`; `nullptr` and a disconnected
connection are dropped. -/
def offer (s : ConnectionPool) : Option Nat → ConnectionPool
  | none => s
  | some id =>
    if !s.isConnected id then s
    else if s.idle.length < s.maxSize then
      { s with idle := s.idle ++ [id], accepted := s.accepted ++ [id] }
    else s

/-- `release(conn)`. -/
def release (s : ConnectionPool) (conn : Option Nat) : ConnectionPool := s.offer conn

/-- `add_connection(conn)`. -/
def addConnection (s : ConnectionPool) (conn : Option Nat) : ConnectionPool := s.offer conn

@[simp] theorem disconnect_idle (s : ConnectionPool) (id : Nat) :
    (s.disconnect id).idle = s.idle := by
  unfold disconnect; split <;> rfl

@[simp] theorem destroy_idle (s : ConnectionPool) (id : Nat) : (s.destroy id).idle = s.idle :=
  disconnect_idle s id

@[simp] theorem destroy_closes (s : ConnectionPool) (id : Nat) :
    (s.destroy id).closes = (s.disconnect id).closes := rfl

/-- A `shared_ptr` to connection `id` is left, so a holder can call it. -/
def IsAlive (s : ConnectionPool) (id : Nat) : Prop := s.conns[id]?.map (·.alive) = some true

instance (s : ConnectionPool) (id : Nat) : Decidable (s.IsAlive id) :=
  inferInstanceAs (Decidable (_ = _))

/-- One call.  A connection is called through a `shared_ptr`, so it is alive; it is
destroyed only when the pool holds no `shared_ptr` to it. -/
inductive Step : ConnectionPool → ConnectionPool → Prop
  | make (s : ConnectionPool) (fd : Nat) : Step s (s.make fd)
  | acquire (s : ConnectionPool) : Step s s.acquire.2
  | release (s : ConnectionPool) (conn : Option Nat) :
      (∀ id, conn = some id → s.IsAlive id) → Step s (s.release conn)
  | addConnection (s : ConnectionPool) (conn : Option Nat) :
      (∀ id, conn = some id → s.IsAlive id) → Step s (s.addConnection conn)
  | disconnect (s : ConnectionPool) (id : Nat) : s.IsAlive id → Step s (s.disconnect id)
  | destroy (s : ConnectionPool) (id : Nat) :
      s.IsAlive id → id ∉ s.idle → Step s (s.destroy id)

/-- The states reached from `ConnectionPool(max_size)`. -/
inductive Reachable (maxSize : Nat) : ConnectionPool → Prop
  | new : Reachable maxSize (new maxSize)
  | step {s s' : ConnectionPool} : Reachable maxSize s → Step s s' → Reachable maxSize s'

/-! ## Updates of one connection -/

section Updates

variable (l : List Connection) (n m : Nat)

@[simp] theorem connected_modify_alive (b : Bool) :
    (l.modify (fun c => { c with alive := b }) n)[m]?.map (·.connected) =
      l[m]?.map (·.connected) := by
  rw [List.getElem?_modify]
  cases l[m]? with
  | none => rfl
  | some c =>
    show some (if n = m then { c with alive := b } else c).connected = some c.connected
    split <;> rfl

@[simp] theorem alive_modify_connected (b : Bool) :
    (l.modify (fun c => { c with connected := b }) n)[m]?.map (·.alive) =
      l[m]?.map (·.alive) := by
  rw [List.getElem?_modify]
  cases l[m]? with
  | none => rfl
  | some c =>
    show some (if n = m then { c with connected := b } else c).alive = some c.alive
    split <;> rfl

theorem lt_length_of_map_getElem? {β : Type} {f : Connection → β} {b : β}
    (h : l[n]?.map f = some b) : n < l.length := by
  by_contra hn
  rw [List.getElem?_eq_none (Nat.le_of_not_lt hn)] at h
  cases h

theorem connected_modify_self (hn : n < l.length) (b : Bool) :
    (l.modify (fun c => { c with connected := b }) n)[n]?.map (·.connected) = some b := by
  simp [List.getElem?_modify, List.getElem?_eq_getElem hn]

end Updates

/-! ## The invariant -/

/-- What holds in every state reached from `ConnectionPool(max_size)`. -/
structure Inv (maxSize : Nat) (s : ConnectionPool) : Prop where
  /-- `max_size_` is fixed. -/
  max_size : s.maxSize = maxSize
  /-- Connections leave the queue in the order they joined it. -/
  fifo : s.acquired ++ s.idle = s.accepted
  /-- The queue holds at most `max_size_` connections. -/
  bounded : s.idle.length ≤ maxSize
  /-- The pool's `shared_ptr`s keep its connections alive. -/
  idle_alive : ∀ id ∈ s.idle, s.IsAlive id
  /-- No descriptor is closed twice. -/
  closes_nodup : s.closes.Nodup
  /-- A descriptor is closed exactly when its connection is disconnected. -/
  closed_iff : ∀ id, id ∈ s.closes ↔ s.conns[id]?.map (·.connected) = some false

theorem inv_new (maxSize : Nat) : Inv maxSize (new maxSize) where
  max_size := rfl
  fifo := rfl
  bounded := Nat.zero_le _
  idle_alive _ h := nomatch h
  closes_nodup := List.nodup_nil
  closed_iff _ := by simp [new]

variable {maxSize : Nat} {s : ConnectionPool}

theorem Inv.make (h : Inv maxSize s) (fd : Nat) : Inv maxSize (s.make fd) := by
  refine { h with idle_alive := fun id hi => ?_, closed_iff := fun id => ?_ }
  · have ha := h.idle_alive id hi
    show (s.conns ++ _)[id]?.map _ = some true
    rwa [List.getElem?_append_left (lt_length_of_map_getElem? _ _ ha)]
  · show id ∈ s.closes ↔ (s.conns ++ _)[id]?.map _ = some false
    rw [h.closed_iff]
    by_cases hid : id < s.conns.length
    · rw [List.getElem?_append_left hid]
    · rw [List.getElem?_eq_none (Nat.le_of_not_lt hid),
        List.getElem?_append_right (Nat.le_of_not_lt hid)]
      cases id - s.conns.length <;> simp

theorem Inv.acquire (h : Inv maxSize s) : Inv maxSize s.acquire.2 := by
  unfold ConnectionPool.acquire
  split
  · rename_i c rest hidle
    refine { h with fifo := ?_, bounded := ?_, idle_alive := fun id hi => ?_ }
    · rw [List.append_assoc, List.singleton_append, ← hidle]; exact h.fifo
    · have := h.bounded; rw [hidle] at this; simp at this ⊢; omega
    · exact h.idle_alive id (by rw [hidle]; exact List.mem_cons_of_mem _ hi)
  · exact h

theorem Inv.offer (h : Inv maxSize s) (conn : Option Nat)
    (halive : ∀ id, conn = some id → s.IsAlive id) : Inv maxSize (s.offer conn) := by
  cases conn with
  | none => exact h
  | some id =>
    dsimp only [ConnectionPool.offer]
    split
    · exact h
    · split
      · refine { h with fifo := ?_, bounded := ?_, idle_alive := fun k hk => ?_ }
        · rw [← List.append_assoc, h.fifo]
        · have := h.max_size; simp only [List.length_append, List.length_singleton]; omega
        · rcases List.mem_append.1 hk with hk | hk
          · exact h.idle_alive k hk
          · rw [List.mem_singleton.1 hk]; exact halive id rfl
      · exact h

theorem Inv.disconnect (h : Inv maxSize s) (id : Nat) : Inv maxSize (s.disconnect id) := by
  unfold ConnectionPool.disconnect
  split
  · rename_i hc
    have hs : s.conns[id]?.map (·.connected) = some true := by
      unfold isConnected at hc; cases hk : s.conns[id]? <;> simp_all
    have hlt : id < s.conns.length := lt_length_of_map_getElem? _ _ hs
    refine { h with idle_alive := fun k hk => ?_, closes_nodup := ?_, closed_iff := fun k => ?_ }
    · simpa [IsAlive] using h.idle_alive k hk
    · refine List.nodup_append.2 ⟨h.closes_nodup, List.nodup_singleton _, fun a ha hb => ?_⟩
      rw [List.mem_singleton.1 hb, h.closed_iff, hs] at ha
      cases ha
    · by_cases hk : id = k
      · subst hk
        exact ⟨fun _ => connected_modify_self _ _ hlt false,
          fun _ => List.mem_append_right _ (List.mem_singleton_self _)⟩
      · show k ∈ s.closes ++ [id] ↔ (s.conns.modify _ id)[k]?.map _ = some false
        rw [List.getElem?_modify_ne _ _ hk, ← h.closed_iff, List.mem_append, List.mem_singleton]
        exact ⟨fun h' => h'.resolve_right (Ne.symm hk), Or.inl⟩
  · exact h

theorem Inv.destroy (h : Inv maxSize s) {id : Nat} (hid : id ∉ s.idle) :
    Inv maxSize (s.destroy id) := by
  have h' := h.disconnect id
  refine { h' with idle_alive := fun k hk => ?_, closed_iff := fun k => ?_ }
  · rw [destroy_idle] at hk
    have hne : id ≠ k := fun he => hid (he ▸ hk)
    have := h'.idle_alive k (by rw [disconnect_idle]; exact hk)
    show ((s.disconnect id).conns.modify _ id)[k]?.map _ = some true
    rwa [List.getElem?_modify_ne _ _ hne]
  · rw [destroy_closes, h'.closed_iff]
    exact Iff.of_eq (congrArg (· = some false) (connected_modify_alive _ _ _ false).symm)

theorem Inv.step (h : Inv maxSize s) {s' : ConnectionPool} (hs : Step s s') : Inv maxSize s' := by
  cases hs with
  | make fd => exact h.make fd
  | acquire => exact h.acquire
  | release conn ha => exact h.offer conn ha
  | addConnection conn ha => exact h.offer conn ha
  | disconnect id _ => exact h.disconnect id
  | destroy id _ hid => exact h.destroy hid

theorem Reachable.inv (h : Reachable maxSize s) : Inv maxSize s := by
  induction h with
  | new => exact inv_new maxSize
  | step _ hs ih => exact ih.step hs

/-! ## Results -/

/-- Along every run: `acquire` hands connections out in the order the pool took them in,
the queue never holds more than `max_size_`, and every queued connection is alive.  The
last part is the shared ownership that `Step.destroy` models: a connection is destroyed
only when no `shared_ptr` to it is left, and the ones in `idle_connections_` are such
`shared_ptr`s. -/
theorem connection_pool_fifo_bounded (h : Reachable maxSize s) :
    s.acquired ++ s.idle = s.accepted ∧ s.idle.length ≤ maxSize ∧ ∀ id ∈ s.idle, s.IsAlive id :=
  have hi := h.inv
  ⟨hi.fifo, hi.bounded, hi.idle_alive⟩

/-- Connection 0 released into a pool of one, then disconnected by its other holder. -/
def disconnectedWhileIdle : ConnectionPool :=
  (((new 1).make 7).release (some 0)).disconnect 0

theorem reachable_disconnectedWhileIdle : Reachable 1 disconnectedWhileIdle :=
  .step (.step (.step .new (.make _ 7)) (.release _ _ fun _ h => by cases h; decide))
    (.disconnect _ 0 (by decide))

theorem connection_pool_fifo_bounded_disconnected :
    Reachable 1 disconnectedWhileIdle ∧
      (disconnectedWhileIdle.acquired ++ disconnectedWhileIdle.idle =
          disconnectedWhileIdle.accepted ∧
        disconnectedWhileIdle.idle.length ≤ 1 ∧
        ∀ id ∈ disconnectedWhileIdle.idle, disconnectedWhileIdle.IsAlive id) :=
  ⟨reachable_disconnectedWhileIdle, connection_pool_fifo_bounded reachable_disconnectedWhileIdle⟩

/-- `acquire` hands out the connection its other holder disconnected. -/
example : disconnectedWhileIdle.acquire.1 = some 0 ∧
    disconnectedWhileIdle.isConnected 0 = false := by decide

/-- Along every run, a connection's descriptor is closed at most once, and it is closed
exactly when the connection is disconnected: `disconnect()` closes only while `connected_`,
and the destructor closes through it. -/
theorem connection_closed_once (h : Reachable maxSize s) :
    s.closes.Nodup ∧ ∀ id, id ∈ s.closes ↔ s.conns[id]?.map (·.connected) = some false :=
  have hi := h.inv
  ⟨hi.closes_nodup, hi.closed_iff⟩

theorem connection_closed_once_destroyed :
    Reachable 1 ((disconnectedWhileIdle.acquire.2).destroy 0) ∧
      (((disconnectedWhileIdle.acquire.2).destroy 0).closes.Nodup ∧
        ∀ id, id ∈ ((disconnectedWhileIdle.acquire.2).destroy 0).closes ↔
          ((disconnectedWhileIdle.acquire.2).destroy 0).conns[id]?.map (·.connected) =
            some false) :=
  have h : Reachable 1 ((disconnectedWhileIdle.acquire.2).destroy 0) :=
    .step (.step reachable_disconnectedWhileIdle (.acquire _))
      (.destroy _ 0 (by decide) (by decide))
  ⟨h, connection_closed_once h⟩

end ConnectionPool

end Network
end AsyncToolkit
