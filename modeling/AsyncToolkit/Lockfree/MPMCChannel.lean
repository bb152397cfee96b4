import AsyncToolkit.Lockfree.NodeMemory

/-!
# async_toolkit: the lock-free MPMC channel

This module models `channel::MPMCChannel<T>` of
`include/async_toolkit/lockfree/mpmc_channel.hpp` in the same way as the queue:
threads interleave atomic steps of `try_send_impl` and `try_receive_impl` on one
`Lockfree.Mem`.

**Differences from the queue.**  A new node is built by `Node(const T&)`, so it
carries its value from the start.  The tail CASes are `compare_exchange_strong`
and never fail spuriously; the node-link and head CASes are weak.
`try_receive_impl` reads no `size_` and compares `head` with no `tail`: it moves
the value out of the successor node *before* its head CAS.  The move leaves the
source in the moved-from state `moved v` of the element type (`id` for a
trivially copyable `T`, the empty vector for `std::vector`).

**Timeouts.**  With the default zero timeout, `try_send` and `try_receive` make
exactly one call of the `_impl` function; those calls are what is modelled.
-/

namespace AsyncToolkit
namespace Lockfree
namespace MPMCChannel

open Memory

/-- Program points of `try_send_impl(value)`, with the locals live at each. -/
inductive Send (α : Type) where
  /-- `if (size_.load() >= capacity_) return false;` -/
  | checkSize (value : α)
  /-- `auto new_node = pool_.allocate(value);` -/
  | allocate (value : α)
  /-- `NodePtr tail = tail_.load();`, and `tail = tail_.load();` closing the loop body. -/
  | loadTail (value : α) (node : Nat)
  /-- `next = tail->next.load();` -/
  | loadNext (value : α) (node tail : Nat)
  /-- `if (tail == tail_.load()) { if (next == nullptr) …` -/
  | checkTail (value : α) (node tail : Nat) (next : Option Nat)
  /-- `tail->next.compare_exchange_weak(next, new_node)` with `next == nullptr`. -/
  | linkNext (value : α) (node tail : Nat)
  /-- `tail_.compare_exchange_strong(tail, next);` -/
  | helpTail (value : α) (node tail next : Nat)
  /-- `tail_.compare_exchange_strong(tail, new_node);` after a successful link. -/
  | swingTail (value : α) (node tail : Nat)
  /-- `size_.fetch_add(1); return true;` -/
  | addSize (value : α)
  deriving DecidableEq

/-- Program points of `try_receive_impl()`, with the locals live at each. -/
inductive Recv (α : Type) where
  /-- `NodePtr head = head_.load();`, and `head = head_.load();` closing the loop body. -/
  | loadHead
  /-- `next = head->next.load();` -/
  | loadNext (head : Nat)
  /-- `if (head == head_.load()) { if (next == nullptr) return std::nullopt; …` -/
  | checkHead (head : Nat) (next : Option Nat)
  /-- `T result = std::move(next->data);` -/
  | moveData (head next : Nat)
  /-- `if (head_.compare_exchange_weak(head, next)) …` -/
  | casHead (head next : Nat) (result : α)
  /-- `pool_.deallocate(head);` -/
  | free (head : Nat) (result : α)
  /-- `size_.fetch_sub(1); return result;` -/
  | subSize (result : α)
  deriving DecidableEq

/-- A thread of the program using the channel. -/
inductive Thread (α : Type) where
  | idle
  | send (pc : Send α)
  | recv (pc : Recv α)
  deriving DecidableEq

section Steps

variable {α : Type} [Inhabited α] (cfg : Config)

/-- `new (block) Node(value)`: `next` is `nullptr`, `data` is `value`. -/
def Mem.constructWith (m : Mem α) (b : Nat) (v : α) : Mem α :=
  { m with next := Function.update m.next b none, data := Function.update m.data b v }

/-- One atomic step of `try_send_impl`: the new memory, the thread's next state, and the
sent value when the call returns `true`. -/
def sendStep (spurious : Bool) (m : Mem α) : Send α → Mem α × Thread α × Option α
  | .checkSize v =>
    if cfg.capacity ≤ m.size then (m, .idle, none) else (m, .send (.allocate v), none)
  | .allocate v =>
    let r := m.pool.allocateBlock cfg.blocks
    (Mem.constructWith { m with pool := r.2 } r.1 v, .send (.loadTail v r.1), none)
  | .loadTail v node => (m, .send (.loadNext v node m.tail), none)
  | .loadNext v node tail => (m, .send (.checkTail v node tail (m.next tail)), none)
  | .checkTail v node tail next =>
    if tail = m.tail then
      match next with
      | none => (m, .send (.linkNext v node tail), none)
      | some n => (m, .send (.helpTail v node tail n), none)
    else (m, .send (.loadTail v node), none)
  | .linkNext v node tail =>
    if !spurious && m.next tail = none then
      ({ m with next := Function.update m.next tail (some node) }, .send (.swingTail v node tail),
        none)
    else (m, .send (.loadTail v node), none)
  | .helpTail v node tail n =>
    (if m.tail = tail then { m with tail := n } else m, .send (.loadTail v node), none)
  | .swingTail v node tail =>
    (if m.tail = tail then { m with tail := node } else m, .send (.addSize v), none)
  | .addSize v => ({ m with size := (m.size + 1) % 2 ^ 64 }, .idle, some v)

variable (moved : α → α)

/-- One atomic step of `try_receive_impl`: the new memory, the thread's next state, and the
received value when the call returns one. -/
def recvStep (spurious : Bool) (m : Mem α) : Recv α → Mem α × Thread α × Option α
  | .loadHead => (m, .recv (.loadNext m.head), none)
  | .loadNext head => (m, .recv (.checkHead head (m.next head)), none)
  | .checkHead head next =>
    if head = m.head then
      match next with
      | none => (m, .idle, none)
      | some n => (m, .recv (.moveData head n), none)
    else (m, .recv .loadHead, none)
  | .moveData head n =>
    ({ m with data := Function.update m.data n (moved (m.data n)) },
      .recv (.casHead head n (m.data n)), none)
  | .casHead head n v =>
    if weakCas spurious m.head head then ({ m with head := n }, .recv (.free head v), none)
    else (m, .recv .loadHead, none)
  | .free head v => ({ m with pool := m.pool.deallocate (some head) }, .recv (.subSize v), none)
  | .subSize v => ({ m with size := (m.size + (2 ^ 64 - 1)) % 2 ^ 64 }, .idle, some v)

end Steps

/-- The whole system: the channel's memory, the threads, and the values of the calls that
succeeded, in the order they returned. -/
structure Sys (α : Type) where
  mem : Mem α
  threads : List (Thread α)
  sent : List α
  received : List α

/-- A scheduler action. -/
inductive Act (α : Type) where
  /-- Idle thread `t` calls `try_send(value)`. -/
  | send (t : Nat) (value : α)
  /-- Idle thread `t` calls `try_receive()`. -/
  | receive (t : Nat)
  /-- Thread `t` takes one atomic step. -/
  | step (t : Nat) (spurious : Bool)

namespace Sys

variable {α : Type} [Inhabited α] (cfg : Config) (moved : α → α)

/-- The channel right after `MPMCChannel(capacity)` returned, with `n` idle threads. -/
def init (n : Nat) : Sys α :=
  let r := MemoryPool.empty.allocateBlock cfg.blocks
  { mem := ({ next := fun _ => none, data := fun _ => default, head := r.1, tail := r.1,
              size := 0, pool := r.2 } : Mem α).construct r.1
    threads := List.replicate n .idle
    sent := []
    received := [] }

/-- Thread `t`; a thread that does not exist is idle and never moves. -/
def thread (s : Sys α) (t : Nat) : Thread α := s.threads.getD t .idle

/-- Let thread `t` start an operation when it is idle. -/
def start (s : Sys α) (t : Nat) (th : Thread α) : Sys α :=
  match s.thread t with
  | .idle => { s with threads := s.threads.set t th }
  | _ => s

/-- Thread `t` takes one atomic step. -/
def exec (s : Sys α) (t : Nat) (spurious : Bool) : Sys α :=
  match s.thread t with
  | .send pc =>
    let r := sendStep cfg spurious s.mem pc
    { s with mem := r.1, threads := s.threads.set t r.2.1, sent := s.sent ++ r.2.2.toList }
  | .recv pc =>
    let r := recvStep moved spurious s.mem pc
    { s with mem := r.1, threads := s.threads.set t r.2.1, received := s.received ++ r.2.2.toList }
  | .idle => s

/-- One scheduler action. -/
def act (s : Sys α) : Act α → Sys α
  | .send t v => s.start t (.send (.checkSize v))
  | .receive t => s.start t (.recv .loadHead)
  | .step t spurious => s.exec cfg moved t spurious

/-- A finite schedule. -/
def run (s : Sys α) (acts : List (Act α)) : Sys α := acts.foldl (act cfg moved) s

/-- States reached from a fresh channel with `n` threads. -/
inductive Reachable (n : Nat) : Sys α → Prop
  | init : Reachable n (init cfg n)
  | step {s : Sys α} : Reachable n s → (a : Act α) → Reachable n (s.act cfg moved a)

/-- No operation is in progress. -/
def Quiescent (s : Sys α) : Prop := ∀ th ∈ s.threads, th = .idle

instance [DecidableEq α] (s : Sys α) : Decidable s.Quiescent :=
  inferInstanceAs (Decidable (∀ th ∈ s.threads, th = .idle))

theorem reachable_run (n : Nat) (acts : List (Act α)) :
    Reachable cfg moved n (run cfg moved (init cfg n) acts) := by
  suffices ∀ s, Reachable cfg moved n s → Reachable cfg moved n (run cfg moved s acts) from
    this _ .init
  induction acts with
  | nil => exact fun _ h => h
  | cons a acts ih => exact fun s h => ih _ (h.step a)

end Sys

/-- `k` uncontended steps of thread `t`. -/
def steps {α : Type} (t k : Nat) : List (Act α) := List.replicate k (.step t false)

/-! ### Runs

An uncontended `try_send` takes 8 steps and an uncontended `try_receive` 7. -/

/-- Producer 0 links its node after the dummy `H` and pauses before swinging `tail_`.
Consumer 2 takes the value, moves `head_` past `H` and frees `H` while `tail_` still
names it.  Producer 1's node is `H` again (the pool is LIFO); it reads `tail_ = H`,
finds `H->next == nullptr` (its own fresh node) and links `H` to itself. -/
def selfLinkTrace : List (Act Nat) :=
  (.send 0 1 :: steps 0 6) ++ (.receive 2 :: steps 2 6) ++ (.send 1 2 :: steps 1 8) ++
  steps 2 1 ++ steps 0 2

/-- The state `selfLinkTrace` reaches from a fresh channel of `int` with three threads. -/
def selfLinkRun : Sys Nat := Sys.run Config.default id (Sys.init Config.default 3) selfLinkTrace

set_option maxRecDepth 20000 in
theorem freed_tail_loses_value :
    Sys.Reachable Config.default id 3 selfLinkRun ∧ selfLinkRun.Quiescent ∧
      selfLinkRun.sent = [2, 1] ∧ selfLinkRun.received = [1] ∧
      Chain selfLinkRun.mem.next (some selfLinkRun.mem.head) [selfLinkRun.mem.head] ∧
      selfLinkRun.mem.next 0 = some 0 :=
  ⟨Sys.reachable_run _ _ _ _, by decide, by decide, by decide, Chain.of_follow 1 (by decide),
    by decide⟩

/-- A single thread sends the vector `[7]` and receives; the first head CAS fails
spuriously, the retry moves from the already moved-from node. -/
def spuriousMoveTrace : List (Act (List Nat)) :=
  (.send 0 [7] :: steps 0 8) ++ (.receive 0 :: steps 0 4) ++ (.step 0 true :: steps 0 7)

/-- The moved-from state of `std::vector`: empty. -/
def vectorMoved (_ : List Nat) : List Nat := []

/-- The state `spuriousMoveTrace` reaches from a fresh channel of vectors with one thread. -/
def spuriousMoveRun : Sys (List Nat) :=
  Sys.run Config.default vectorMoved (Sys.init Config.default 1) spuriousMoveTrace

set_option maxRecDepth 20000 in
theorem spurious_cas_receives_moved_from :
    Sys.Reachable Config.default vectorMoved 1 spuriousMoveRun ∧ spuriousMoveRun.Quiescent ∧
      spuriousMoveRun.sent = [[7]] ∧ spuriousMoveRun.received = [[]] :=
  ⟨Sys.reachable_run _ _ _ _, by decide, by decide, by decide⟩

end MPMCChannel
end Lockfree
end AsyncToolkit
