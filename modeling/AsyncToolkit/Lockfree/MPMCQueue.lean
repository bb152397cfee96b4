import AsyncToolkit.Lockfree.NodeMemory

/-!
# async_toolkit: the lock-free MPMC queue

This module models `lockfree::MPMCQueue<T>` of
`include/async_toolkit/lockfree/mpmc_queue.hpp` as a system of threads that
interleave atomic steps on one shared memory.

**Memory.**  The shared memory is `Lockfree.Mem`: the nodes, named by their
pool blocks, and `head_`, `tail_`, `size_` and `pool_`.

**Threads.**  A thread is idle, inside `try_enqueue`, inside `try_dequeue`, or
crashed (it dereferenced `nullptr`).  Each program point of the two operations
is one constructor of `Enq` or `Deq`, carrying the locals that are live there.
One atomic step is one load, store, CAS or fetch-add on shared memory, or one
call into the pool (which holds `mutex_`).  A `compare_exchange_weak` may fail
spuriously: the scheduler's flag `spurious` decides it.

**Runs.**  `Sys.act` applies one scheduler action: a call of an operation by an
idle thread, or one step of a thread.  `Reachable` states are those reached from
a freshly constructed queue by finitely many actions, for any number of
threads.  The traces at the end of the module are such runs.
-/

namespace AsyncToolkit
namespace Lockfree
namespace MPMCQueue

open Memory

/-- Program points of `try_enqueue(value)`, with the locals live at each. -/
inductive Enq (α : Type) where
  /-- `if (size_.load() >= capacity_) return false;` -/
  | checkSize (value : α)
  /-- `auto node = pool_.allocate();` -/
  | allocate (value : α)
  /-- `node->data = value;` -/
  | setData (value : α) (node : Nat)
  /-- `node->next.store(nullptr);` -/
  | clearNext (value : α) (node : Nat)
  /-- `Node* tail = tail_.load();` -/
  | loadTail (value : α) (node : Nat)
  /-- `next = tail->next.load();` -/
  | loadNext (value : α) (node tail : Nat)
  /-- `if (tail == tail_.load()) { if (next == nullptr) …` -/
  | checkTail (value : α) (node tail : Nat) (next : Option Nat)
  /-- `tail->next.compare_exchange_weak(next, node)` with `next == nullptr`. -/
  | linkNext (value : α) (node tail : Nat)
  /-- `tail_.compare_exchange_weak(tail, next);` -/
  | helpTail (value : α) (node tail next : Nat)
  /-- `tail = tail_.load();` at the end of the loop body. -/
  | reloadTail (value : α) (node : Nat)
  /-- `tail_.compare_exchange_weak(tail, node);` after the loop. -/
  | swingTail (value : α) (node tail : Nat)
  /-- `size_.fetch_add(1); return true;` -/
  | addSize (value : α)
  deriving DecidableEq

/-- Program points of `try_dequeue(value)`, with the locals live at each. -/
inductive Deq (α : Type) where
  /-- `if (size_.load() == 0) return false;` -/
  | checkSize
  /-- `Node* head = head_.load();` -/
  | loadHead
  /-- `Node* tail = tail_.load();`, read once before the loop. -/
  | loadTail (head : Nat)
  /-- `next = head->next.load();` -/
  | loadNext (head tail : Nat)
  /-- `if (head == head_.load()) { if (head == tail) { if (next == nullptr) return false; …` -/
  | checkHead (head tail : Nat) (next : Option Nat)
  /-- `tail_.compare_exchange_weak(tail, next);` -/
  | helpTail (head tail next : Nat)
  /-- `value = next->data;` -/
  | readData (head tail : Nat) (next : Option Nat)
  /-- `if (head_.compare_exchange_weak(head, next)) break;` -/
  | casHead (head tail next : Nat) (value : α)
  /-- `head = head_.load();` at the end of the loop body. -/
  | reloadHead (tail : Nat)
  /-- `pool_.deallocate(head);` -/
  | free (head : Nat) (value : α)
  /-- `size_.fetch_sub(1); return true;` -/
  | subSize (value : α)
  deriving DecidableEq

/-- A thread of the program using the queue. -/
inductive Thread (α : Type) where
  | idle
  | enq (pc : Enq α)
  | deq (pc : Deq α)
  /-- The thread dereferenced `nullptr`: undefined behaviour, it makes no further step. -/
  | crashed
  deriving DecidableEq

section Steps

variable {α : Type} [Inhabited α] (cfg : Config)

/-- One atomic step of `try_enqueue`: the new memory, the thread's next state, and the
enqueued value when the call returns `true`. -/
def enqStep (spurious : Bool) (m : Mem α) : Enq α → Mem α × Thread α × Option α
  | .checkSize v =>
    if cfg.capacity ≤ m.size then (m, .idle, none) else (m, .enq (.allocate v), none)
  | .allocate v =>
    let r := m.pool.allocateBlock cfg.blocks
    (({ m with pool := r.2 }).construct r.1, .enq (.setData v r.1), none)
  | .setData v node =>
    ({ m with data := Function.update m.data node v }, .enq (.clearNext v node), none)
  | .clearNext v node =>
    ({ m with next := Function.update m.next node none }, .enq (.loadTail v node), none)
  | .loadTail v node => (m, .enq (.loadNext v node m.tail), none)
  | .loadNext v node tail => (m, .enq (.checkTail v node tail (m.next tail)), none)
  | .checkTail v node tail next =>
    if tail = m.tail then
      match next with
      | none => (m, .enq (.linkNext v node tail), none)
      | some n => (m, .enq (.helpTail v node tail n), none)
    else (m, .enq (.reloadTail v node), none)
  | .linkNext v node tail =>
    if !spurious && m.next tail = none then
      ({ m with next := Function.update m.next tail (some node) }, .enq (.swingTail v node tail),
        none)
    else (m, .enq (.reloadTail v node), none)
  | .helpTail v node tail n =>
    (if weakCas spurious m.tail tail then { m with tail := n } else m,
      .enq (.reloadTail v node), none)
  | .reloadTail v node => (m, .enq (.loadNext v node m.tail), none)
  | .swingTail v node tail =>
    (if weakCas spurious m.tail tail then { m with tail := node } else m, .enq (.addSize v), none)
  | .addSize v => ({ m with size := (m.size + 1) % 2 ^ 64 }, .idle, some v)

/-- One atomic step of `try_dequeue`: the new memory, the thread's next state, and the
dequeued value when the call returns `true`. -/
def deqStep (spurious : Bool) (m : Mem α) : Deq α → Mem α × Thread α × Option α
  | .checkSize => if m.size = 0 then (m, .idle, none) else (m, .deq .loadHead, none)
  | .loadHead => (m, .deq (.loadTail m.head), none)
  | .loadTail head => (m, .deq (.loadNext head m.tail), none)
  | .loadNext head tail => (m, .deq (.checkHead head tail (m.next head)), none)
  | .checkHead head tail next =>
    if head = m.head then
      if head = tail then
        match next with
        | none => (m, .idle, none)
        | some n => (m, .deq (.helpTail head tail n), none)
      else (m, .deq (.readData head tail next), none)
    else (m, .deq (.reloadHead tail), none)
  | .helpTail _ tail n =>
    if weakCas spurious m.tail tail then ({ m with tail := n }, .deq (.reloadHead tail), none)
    else (m, .deq (.reloadHead m.tail), none)
  | .readData head tail next =>
    match next with
    | none => (m, .crashed, none)
    | some n => (m, .deq (.casHead head tail n (m.data n)), none)
  | .casHead head tail n v =>
    if weakCas spurious m.head head then ({ m with head := n }, .deq (.free head v), none)
    else (m, .deq (.reloadHead tail), none)
  | .reloadHead tail => (m, .deq (.loadNext m.head tail), none)
  | .free head v => ({ m with pool := m.pool.deallocate (some head) }, .deq (.subSize v), none)
  | .subSize v => ({ m with size := (m.size + (2 ^ 64 - 1)) % 2 ^ 64 }, .idle, some v)

end Steps

/-- The whole system: the queue's memory, the threads, and the values of the calls that
returned `true`, in the order they returned. -/
structure Sys (α : Type) where
  mem : Mem α
  threads : List (Thread α)
  enqueued : List α
  dequeued : List α

/-- A scheduler action. -/
inductive Act (α : Type) where
  /-- Idle thread `t` calls `try_enqueue(value)`. -/
  | enqueue (t : Nat) (value : α)
  /-- Idle thread `t` calls `try_dequeue`. -/
  | dequeue (t : Nat)
  /-- Thread `t` takes one atomic step. -/
  | step (t : Nat) (spurious : Bool)

namespace Sys

variable {α : Type} [Inhabited α] (cfg : Config)

/-- The queue right after `MPMCQueue(capacity)` returned, with `n` idle threads. -/
def init (n : Nat) : Sys α :=
  let r := MemoryPool.empty.allocateBlock cfg.blocks
  { mem := ({ next := fun _ => none, data := fun _ => default, head := r.1, tail := r.1,
              size := 0, pool := r.2 } : Mem α).construct r.1
    threads := List.replicate n .idle
    enqueued := []
    dequeued := [] }

/-- Thread `t`; a thread that does not exist is idle and never moves. -/
def thread (s : Sys α) (t : Nat) : Thread α := s.threads.getD t .idle

/-- Let thread `t` start an operation when it is idle. -/
def start (s : Sys α) (t : Nat) (th : Thread α) : Sys α :=
  match s.thread t with
  | .idle => { s with threads := s.threads.set t th }
  | _ => s

/-- Thread `t` takes one atomic step. -/
def exec (s : Sys α) (t : Nat) (spurious : Bool) : Sys α :=
  match s.thread t with
  | .enq pc =>
    let r := enqStep cfg spurious s.mem pc
    { s with mem := r.1, threads := s.threads.set t r.2.1, enqueued := s.enqueued ++ r.2.2.toList }
  | .deq pc =>
    let r := deqStep spurious s.mem pc
    { s with mem := r.1, threads := s.threads.set t r.2.1, dequeued := s.dequeued ++ r.2.2.toList }
  | _ => s

/-- One scheduler action. -/
def act (s : Sys α) : Act α → Sys α
  | .enqueue t v => s.start t (.enq (.checkSize v))
  | .dequeue t => s.start t (.deq .checkSize)
  | .step t spurious => s.exec cfg t spurious

/-- A finite schedule. -/
def run (s : Sys α) (acts : List (Act α)) : Sys α := acts.foldl (act cfg) s

/-- States reached from a fresh queue with `n` threads. -/
inductive Reachable (n : Nat) : Sys α → Prop
  | init : Reachable n (init cfg n)
  | step {s : Sys α} : Reachable n s → (a : Act α) → Reachable n (s.act cfg a)

/-- No operation is in progress. -/
def Quiescent (s : Sys α) : Prop := ∀ th ∈ s.threads, th = .idle

instance [DecidableEq α] (s : Sys α) : Decidable s.Quiescent :=
  inferInstanceAs (Decidable (∀ th ∈ s.threads, th = .idle))

theorem reachable_run (n : Nat) (acts : List (Act α)) :
    Reachable cfg n (run cfg (init cfg n) acts) := by
  suffices ∀ s, Reachable cfg n s → Reachable cfg n (run cfg s acts) from this _ .init
  induction acts with
  | nil => exact fun _ h => h
  | cons a acts ih => exact fun s h => ih _ (h.step a)

end Sys

/-- `k` uncontended steps of thread `t`. -/
def steps (t k : Nat) : List (Act Nat) := List.replicate k (.step t false)

/-! ### Runs

An uncontended `try_enqueue` takes 10 steps and an uncontended `try_dequeue` 9.
Thread 0 is a producer; threads 1 and 2 are consumers.  In `abaTrace` consumer 1
reads `head = H`, `next = N` and the value `1`, then pauses before its `head_`
CAS; consumer 2 dequeues `1` and frees `H`; the producer's next node is `H`
again (the pool is LIFO); consumer 2 dequeues it, so `head_ = H` once more; the
paused CAS succeeds and `1` is returned a second time. -/

/-- ABA on `head_` through the LIFO pool. -/
def abaTrace : List (Act Nat) :=
  (.enqueue 0 1 :: steps 0 10) ++ (.dequeue 1 :: steps 1 6) ++ (.dequeue 2 :: steps 2 9) ++
  (.enqueue 0 2 :: steps 0 10) ++ (.dequeue 2 :: steps 2 9) ++ steps 1 3

/-- The state `abaTrace` reaches from a fresh queue with three threads. -/
def abaRun : Sys Nat := Sys.run Config.default (Sys.init Config.default 3) abaTrace

set_option maxRecDepth 20000 in
theorem aba_dequeues_twice :
    Sys.Reachable Config.default 3 abaRun ∧ abaRun.Quiescent ∧ abaRun.enqueued = [1, 2] ∧
      abaRun.dequeued = [1, 2, 1] :=
  ⟨Sys.reachable_run _ _ _, by decide, by decide, by decide⟩

/-- Consumer 1 snapshots `tail = N` before its loop.  While it pauses before its `head_`
CAS, consumer 2 drains `N` and two later nodes, so the CAS fails and consumer 1 reloads
`head = head_`, a node with no successor that differs from the stale `tail`. -/
def staleTailTrace : List (Act Nat) :=
  (.enqueue 0 1 :: steps 0 10) ++ (.dequeue 1 :: steps 1 6) ++ (.dequeue 2 :: steps 2 9) ++
  (.enqueue 0 2 :: steps 0 10) ++ (.enqueue 0 3 :: steps 0 10) ++
  (.dequeue 2 :: steps 2 9) ++ (.dequeue 2 :: steps 2 9) ++ steps 1 4

/-- The state `staleTailTrace` reaches from a fresh queue with three threads. -/
def staleTailRun : Sys Nat := Sys.run Config.default (Sys.init Config.default 3) staleTailTrace

set_option maxRecDepth 20000 in
theorem stale_tail_reads_null_next :
    Sys.Reachable Config.default 3 staleTailRun ∧
      staleTailRun.thread 1 = .deq (.readData 2 1 none) ∧
      (staleTailRun.act Config.default (.step 1 false)).thread 1 = .crashed :=
  ⟨Sys.reachable_run _ _ _, by decide, by decide⟩

/-- A queue of capacity 1, used by `overfillTrace`. -/
def unitConfig : Config := ⟨1, 15, by decide, by decide⟩

/-- Two producers pass the capacity check of an empty queue of capacity 1 before either
links its node. -/
def overfillTrace : List (Act Nat) :=
  [.enqueue 0 1, .enqueue 1 2, .step 0 false, .step 1 false] ++ steps 0 9 ++ steps 1 9

/-- The state `overfillTrace` reaches from a fresh queue of capacity 1 with two threads. -/
def overfillRun : Sys Nat := Sys.run unitConfig (Sys.init unitConfig 2) overfillTrace

set_option maxRecDepth 20000 in
theorem two_producers_overfill :
    Sys.Reachable unitConfig 2 overfillRun ∧ overfillRun.Quiescent ∧
      Chain overfillRun.mem.next (some overfillRun.mem.head) [0, 1, 2] :=
  ⟨Sys.reachable_run _ _ _, by decide, Chain.of_follow 3 (by decide)⟩

/-- With two producers and one consumer the ABA strikes `tail_`: producer 0 reads
`tail = H` and `next = M`, and pauses; the consumer frees `H`, producer 1 reuses it, the
consumer frees `M`; producer 0's helping CAS then swings `tail_` to the free node `M`,
and producer 1's next node is `M` itself, linked to itself behind the queue. -/
def lostTailTrace : List (Act Nat) :=
  (.enqueue 1 20 :: steps 1 4) ++ (.enqueue 0 10 :: steps 0 4) ++ steps 1 4 ++ steps 0 2 ++
  steps 1 2 ++ (.dequeue 2 :: steps 2 9) ++ (.enqueue 1 30 :: steps 1 10) ++
  (.dequeue 2 :: steps 2 9) ++ steps 0 2 ++ (.enqueue 1 40 :: steps 1 10)

/-- The state `lostTailTrace` reaches from a fresh queue with three threads. -/
def lostTailRun : Sys Nat := Sys.run Config.default (Sys.init Config.default 3) lostTailTrace

set_option maxRecDepth 20000 in
theorem two_producers_lose_value :
    Sys.Reachable Config.default 3 lostTailRun ∧ lostTailRun.enqueued = [20, 30, 40] ∧
      lostTailRun.dequeued = [20, 30] ∧
      Chain lostTailRun.mem.next (some lostTailRun.mem.head) [lostTailRun.mem.head] ∧
      lostTailRun.mem.next 1 = some 1 :=
  ⟨Sys.reachable_run _ _ _, by decide, by decide, Chain.of_follow 1 (by decide), by decide⟩

end MPMCQueue
end Lockfree
end AsyncToolkit
