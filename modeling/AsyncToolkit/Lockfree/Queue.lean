import AsyncToolkit.Lockfree.NodeMemory

/-!
# async_toolkit: the lock-free queue

This module models `lockfree::Queue<T>` of `include/async_toolkit/lockfree/queue.hpp` as a
system of threads that interleave atomic steps on one shared memory.

**Memory.**  Nodes are allocated by `new` and freed by `delete`.  A node is named by its
address, and the addresses of the nodes not yet deleted are `live`.  `new` hands out the
lowest address that is not live, so the address of a deleted node comes back at a later
`new`.  `next a` is `Node::next` and `data a` is `Node::data`, `none` for the null
`shared_ptr` of the dummy node; a deleted node keeps both until its address is reused.
`size_` is a `size_t`, so it wraps modulo `2 ^ 64`.

**Threads.**  Each program point of `push` and `pop` is one constructor of `Push` or `Pop`,
with the locals live there; one atomic step is one `new`, `delete`, load, CAS or
fetch-add.  A thread that touches a deleted node or dereferences a null `data` has
undefined behaviour, and stops (`crashed`).  A `compare_exchange_weak` may fail
spuriously: the scheduler's flag `spurious` decides it.

**Results.**  `firstFree_not_mem`: `new` never hands out a live node.
`pop_returns_value_twice`: a popper that read `head` and the value behind it pauses
before its CAS on `head_`; meanwhile the old head is popped and deleted, its address is
reused by the next `push`, and that node becomes the head again, so the paused CAS
succeeds and the value is returned a second time.
-/

namespace AsyncToolkit
namespace Lockfree
namespace Queue

/-- The shared memory of one `Queue<T>`. -/
structure Heap (α : Type) where
  live : List Nat
  next : Nat → Option Nat
  data : Nat → Option α
  head : Nat
  tail : Nat
  size : Nat

/-- The lowest address that is not live. -/
def firstFree (live : List Nat) : Nat :=
  ((List.range (live.length + 1)).find? (· ∉ live)).getD 0

/-- `new` never hands out the address of a node that is not deleted: of the
`live.length + 1` lowest addresses one is not live. -/
theorem firstFree_not_mem (live : List Nat) : firstFree live ∉ live := by
  cases h : (List.range (live.length + 1)).find? (· ∉ live) with
  | some a =>
    rw [firstFree, h, Option.getD_some]
    simpa using List.find?_some h
  | none =>
    have hsub : List.range (live.length + 1) ⊆ live := fun a ha => by
      simpa using List.find?_eq_none.mp h a ha
    have hle := ((List.nodup_range _).subperm hsub).length_le
    rw [List.length_range] at hle
    omega

variable {α : Type}

/-- `new Node(value)`: a node with the value and no successor, and its address. -/
def Heap.new (m : Heap α) (v : α) : Heap α × Nat :=
  let a := firstFree m.live
  ({ m with live := a :: m.live, next := Function.update m.next a none,
            data := Function.update m.data a (some v) }, a)

/-- Program points of `push(value)`, with the locals live at each. -/
inductive Push (α : Type) where
  /-- `auto new_node = new Node(value);` -/
  | alloc (value : α)
  /-- `auto tail = tail_.load();` -/
  | loadTail (value : α) (node : Nat)
  /-- `auto next = tail->next.load();` -/
  | loadNext (value : α) (node tail : Nat)
  /-- `if (tail == tail_.load()) { if (next == nullptr) …` -/
  | checkTail (value : α) (node tail : Nat) (next : Option Nat)
  /-- `tail->next.compare_exchange_weak(next, new_node)` with `next == nullptr`. -/
  | linkNext (value : α) (node tail : Nat)
  /-- `tail_.compare_exchange_weak(tail, new_node);` -/
  | swingTail (value : α) (node tail : Nat)
  /-- `size_.fetch_add(1); return;` -/
  | addSize (value : α)
  /-- `tail_.compare_exchange_weak(tail, next);` -/
  | helpTail (value : α) (node tail next : Nat)
  deriving DecidableEq

/-- Program points of `pop()`, with the locals live at each. -/
inductive Pop (α : Type) where
  /-- `auto head = head_.load();` -/
  | loadHead
  /-- `auto tail = tail_.load();` -/
  | loadTail (head : Nat)
  /-- `auto next = head->next.load();` -/
  | loadNext (head tail : Nat)
  /-- `if (head == head_.load()) { if (head == tail) { if (next == nullptr) …` -/
  | checkHead (head tail : Nat) (next : Option Nat)
  /-- `tail_.compare_exchange_weak(tail, next);` -/
  | helpTail (tail next : Nat)
  /-- `auto result = *next->data;` -/
  | readData (head next : Nat)
  /-- `if (head_.compare_exchange_weak(head, next))` -/
  | casHead (head next : Nat) (result : α)
  /-- `size_.fetch_sub(1);` -/
  | subSize (head : Nat) (result : α)
  /-- `delete head; return result;` -/
  | free (head : Nat) (result : α)
  deriving DecidableEq

/-- A thread of the program using the queue. -/
inductive Thread (α : Type) where
  | idle
  | push (pc : Push α)
  | pop (pc : Pop α)
  /-- The thread touched a deleted node or a null `data`: undefined behaviour. -/
  | crashed
  deriving DecidableEq

/-- One atomic step of `push`: the new memory, the thread's next state, and the pushed
value when the call returns. -/
def pushStep (spurious : Bool) (m : Heap α) : Push α → Heap α × Thread α × Option α
  | .alloc v => let r := m.new v; (r.1, .push (.loadTail v r.2), none)
  | .loadTail v node => (m, .push (.loadNext v node m.tail), none)
  | .loadNext v node tail =>
    if tail ∈ m.live then (m, .push (.checkTail v node tail (m.next tail)), none)
    else (m, .crashed, none)
  | .checkTail v node tail next =>
    if tail = m.tail then
      match next with
      | none => (m, .push (.linkNext v node tail), none)
      | some n => (m, .push (.helpTail v node tail n), none)
    else (m, .push (.loadTail v node), none)
  | .linkNext v node tail =>
    if tail ∈ m.live then
      if !spurious && m.next tail = none then
        ({ m with next := Function.update m.next tail (some node) }, .push (.swingTail v node tail),
          none)
      else (m, .push (.loadTail v node), none)
    else (m, .crashed, none)
  | .swingTail v node tail =>
    (if weakCas spurious m.tail tail then { m with tail := node } else m, .push (.addSize v), none)
  | .addSize v => ({ m with size := (m.size + 1) % 2 ^ 64 }, .idle, some v)
  | .helpTail v node tail n =>
    (if weakCas spurious m.tail tail then { m with tail := n } else m, .push (.loadTail v node),
      none)

/-- One atomic step of `pop`: the new memory, the thread's next state, and the popped value
when the call returns one (a `std::nullopt` is not recorded). -/
def popStep (spurious : Bool) (m : Heap α) : Pop α → Heap α × Thread α × Option α
  | .loadHead => (m, .pop (.loadTail m.head), none)
  | .loadTail head => (m, .pop (.loadNext head m.tail), none)
  | .loadNext head tail =>
    if head ∈ m.live then (m, .pop (.checkHead head tail (m.next head)), none)
    else (m, .crashed, none)
  | .checkHead head tail next =>
    if head = m.head then
      if head = tail then
        match next with
        | none => (m, .idle, none)
        | some n => (m, .pop (.helpTail tail n), none)
      else
        match next with
        | some n => (m, .pop (.readData head n), none)
        | none => (m, .pop .loadHead, none)
    else (m, .pop .loadHead, none)
  | .helpTail tail n =>
    (if weakCas spurious m.tail tail then { m with tail := n } else m, .pop .loadHead, none)
  | .readData head n =>
    if n ∈ m.live then
      match m.data n with
      | some v => (m, .pop (.casHead head n v), none)
      | none => (m, .crashed, none)
    else (m, .crashed, none)
  | .casHead head n v =>
    if weakCas spurious m.head head then ({ m with head := n }, .pop (.subSize head v), none)
    else (m, .pop .loadHead, none)
  | .subSize head v =>
    ({ m with size := (m.size + (2 ^ 64 - 1)) % 2 ^ 64 }, .pop (.free head v), none)
  | .free head v =>
    if head ∈ m.live then ({ m with live := m.live.erase head }, .idle, some v)
    else (m, .crashed, none)

/-- The whole system: the queue's memory, the threads, and the values of the calls that
returned, in the order they returned. -/
structure Sys (α : Type) where
  heap : Heap α
  threads : List (Thread α)
  pushed : List α
  popped : List α

/-- A scheduler action. -/
inductive Act (α : Type) where
  /-- Idle thread `t` calls `push(value)`. -/
  | push (t : Nat) (value : α)
  /-- Idle thread `t` calls `pop()`. -/
  | pop (t : Nat)
  /-- Thread `t` takes one atomic step. -/
  | step (t : Nat) (spurious : Bool)

namespace Sys

/-- The queue right after `Queue()` returned, its dummy node at address 0, with `n` idle
threads. -/
def init (n : Nat) : Sys α :=
  { heap := ⟨[0], fun _ => none, fun _ => none, 0, 0, 0⟩
    threads := List.replicate n .idle
    pushed := []
    popped := [] }

/-- Thread `t`; a thread that does not exist is idle and never moves. -/
def thread (s : Sys α) (t : Nat) : Thread α := s.threads.getD t .idle

/-- Let thread `t` start an operation when it is idle. -/
def start (s : Sys α) (t : Nat) (th : Thread α) : Sys α :=
  match s.thread t with
  | .idle => { s with threads := s.threads.set t th }
  | _ => s

/-- Thread `t` takes one atomic step. -/
def exec (s : Sys α) (t : Nat) (spurious : Bool) : Sys α :=
  match s.thread t with
  | .push pc =>
    let r := pushStep spurious s.heap pc
    { s with heap := r.1, threads := s.threads.set t r.2.1, pushed := s.pushed ++ r.2.2.toList }
  | .pop pc =>
    let r := popStep spurious s.heap pc
    { s with heap := r.1, threads := s.threads.set t r.2.1, popped := s.popped ++ r.2.2.toList }
  | _ => s

/-- One scheduler action. -/
def act (s : Sys α) : Act α → Sys α
  | .push t v => s.start t (.push (.alloc v))
  | .pop t => s.start t (.pop .loadHead)
  | .step t spurious => s.exec t spurious

/-- A finite schedule. -/
def run (s : Sys α) (acts : List (Act α)) : Sys α := acts.foldl act s

/-- States reached from a new queue with `n` threads. -/
inductive Reachable (n : Nat) : Sys α → Prop
  | init : Reachable n (init n)
  | step {s : Sys α} : Reachable n s → (a : Act α) → Reachable n (s.act a)

/-- No operation is in progress. -/
def Quiescent (s : Sys α) : Prop := ∀ th ∈ s.threads, th = .idle

instance [DecidableEq α] (s : Sys α) : Decidable s.Quiescent :=
  inferInstanceAs (Decidable (∀ th ∈ s.threads, th = .idle))

theorem reachable_run (n : Nat) (acts : List (Act α)) : Reachable n (run (init n) acts) := by
  suffices ∀ s, Reachable n s → Reachable n (run s acts) from this _ .init
  induction acts with
  | nil => exact fun _ h => h
  | cons a acts ih => exact fun s h => ih _ (h.step a)

end Sys

/-- `k` uncontended steps of thread `t`. -/
def steps (t k : Nat) : List (Act Nat) := List.replicate k (.step t false)

/-! ### ABA on `head_`

An uncontended `push` takes 7 steps and an uncontended `pop` of a value 8.  Thread 0
pushes; threads 1 and 2 pop.  Popper 1 reads `head` (the dummy, address 0), `next` and the
value `1`, and pauses before its CAS on `head_`.  Popper 2 pops `1` and deletes address 0;
the next `push` gets address 0 for its node, and popper 2 pops that node's value `2`, so
that `head_` is address 0 again.  Popper 1's CAS succeeds, `head_` becomes the deleted
node, and `1` is returned twice. -/

/-- ABA on `head_` through the reused address. -/
def abaTrace : List (Act Nat) :=
  (.push 0 1 :: steps 0 7) ++ (.pop 1 :: steps 1 5) ++ (.pop 2 :: steps 2 8) ++
    (.push 0 2 :: steps 0 7) ++ (.pop 2 :: steps 2 8) ++ steps 1 3

/-- The state `abaTrace` reaches from a new queue with three threads. -/
def abaRun : Sys Nat := Sys.run (Sys.init 3) abaTrace

set_option maxRecDepth 20000 in
/-- After the run every call has returned: `1` and `2` were pushed once each and `1` was
popped twice; `head_` is a deleted node and `size_` has wrapped to `SIZE_MAX`. -/
theorem pop_returns_value_twice :
    Sys.Reachable 3 abaRun ∧ abaRun.Quiescent ∧ abaRun.pushed = [1, 2] ∧
      abaRun.popped = [1, 2, 1] ∧ abaRun.heap.head ∉ abaRun.heap.live ∧
      abaRun.heap.size = 2 ^ 64 - 1 :=
  ⟨Sys.reachable_run _ _, by decide, by decide, by decide, by decide, by decide⟩

end Queue
end Lockfree
end AsyncToolkit
