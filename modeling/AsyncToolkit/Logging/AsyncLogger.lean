import Mathlib.Data.List.Basic

/-!
# async_toolkit: flushing the asynchronous logger

This module models `logging::AsyncLogger` of
`include/async_toolkit/logging/async_logger.hpp` as a step relation over its threads:
the worker in `process_logs`, the threads in `flush`, the destructor, and the threads
that `log`.

**State.**  The contents of `queue_` (messages are numbers; `try_enqueue` and
`try_dequeue` are atomic), `running_`, whether `mutex_` is held, the worker's position
and its `batch`, the messages written so far, the position of each thread in `flush`,
and the destructor's.

**Steps.**  A `flush` step under `mutex_` evaluates the predicate of `cv_.wait`: with
the queue empty `flush` returns, otherwise the thread holds the mutex and is about to
block; the next step blocks it and releases the mutex.  `cv_.notify_all()` moves every
blocked thread back to the mutex; the worker calls it without holding `mutex_`, so it
can fall between a flusher's predicate and its block.  There are no spurious wake-ups.

**Results.**  `destructor_flush_never_returns`: the destructor's `flush` evaluates the
predicate while the last message is queued, the worker drains it, notifies nobody and
returns, and the destructor then blocks in `cv_.wait` for ever.
-/

namespace AsyncToolkit
namespace Logging

/-- A thread's position in `flush`. -/
inductive Flush
  /-- Not in `flush`, or returned from it. -/
  | idle
  /-- About to lock `mutex_` and evaluate `queue_.empty()`: on entry, or woken. -/
  | entering
  /-- Found the queue not empty, holds `mutex_`, about to block in `cv_.wait`. -/
  | waiting
  /-- Blocked in `cv_.wait`, `mutex_` released. -/
  | blocked
  deriving DecidableEq, Repr

/-- The worker's position in `process_logs`. -/
inductive Worker
  /-- At `while (running_ || !queue_.empty())`. -/
  | check
  /-- At `queue_.try_dequeue(msg)`. -/
  | dequeue
  /-- At `if (batch.size() >= 100 || queue_.empty())`. -/
  | full
  /-- Wrote and cleared the batch, about to call `cv_.notify_all()`. -/
  | notify
  /-- Left the loop, at `if (!batch.empty())`. -/
  | final
  /-- Wrote the final batch, about to call `cv_.notify_all()`. -/
  | finalNotify
  /-- Returned from `process_logs`. -/
  | done
  deriving DecidableEq, Repr

/-- The destructor's position. -/
inductive Dtor
  | alive
  /-- Set `running_ = false`; inside `flush`. -/
  | flushing (f : Flush)
  /-- In `worker_.join()`. -/
  | joining
  | returned
  deriving DecidableEq, Repr

/-- The logger and the threads that use it. -/
structure Logger where
  queue : List Nat
  running : Bool
  locked : Bool
  worker : Worker
  batch : List Nat
  written : List Nat
  flushers : List Flush
  dtor : Dtor
  deriving DecidableEq, Repr

namespace Logger

/-- A logger just constructed, with `n` threads that may call `flush`. -/
def init (n : Nat) : Logger :=
  ⟨[], true, false, .check, [], [], List.replicate n .idle, .alive⟩

/-- One step of `flush`: enter, evaluate the predicate under `mutex_` (return, or keep the
mutex and go to block), or block.  The result is the new position and `mutex_`. -/
def flushStep (s : Logger) : Flush → Flush × Bool
  | .idle => (.entering, s.locked)
  | .entering =>
    if s.locked then (.entering, true)
    else if s.queue.isEmpty then (.idle, false) else (.waiting, true)
  | .waiting => (.blocked, false)
  | .blocked => (.blocked, s.locked)

/-- `cv_.notify_all()`: a blocked thread goes back to the mutex. -/
def wake : Flush → Flush
  | .blocked => .entering
  | f => f

/-- `cv_.notify_all()` on every thread in `cv_.wait`. -/
def notifyAll (s : Logger) : Logger :=
  { s with flushers := s.flushers.map wake
           dtor := match s.dtor with
             | .flushing f => .flushing (wake f)
             | d => d }

/-- One step of the worker. -/
def workStep (s : Logger) : Logger :=
  match s.worker with
  | .check => { s with worker := if s.running || !s.queue.isEmpty then .dequeue else .final }
  | .dequeue =>
    match s.queue with
    | m :: q => { s with queue := q, batch := s.batch ++ [m], worker := .full }
    | [] => { s with worker := .check }
  | .full =>
    if 100 ≤ s.batch.length || s.queue.isEmpty then
      { s with written := s.written ++ s.batch, batch := [], worker := .notify }
    else { s with worker := .check }
  | .notify => { s.notifyAll with worker := .check }
  | .final =>
    if s.batch.isEmpty then { s with worker := .done }
    else { s with written := s.written ++ s.batch, batch := [], worker := .finalNotify }
  | .finalNotify => { s.notifyAll with worker := .done }
  | .done => s

/-- A step of the thread `i` of `flush`. -/
def flushThread (s : Logger) (i : Nat) : Logger :=
  match s.flushers[i]? with
  | some f =>
    let r := s.flushStep f
    { s with flushers := s.flushers.set i r.1, locked := r.2 }
  | none => s

/-- A step of `~AsyncLogger`: `running_ = false`, then `flush()`, then `worker_.join()`. -/
def dtorStep (s : Logger) : Logger :=
  match s.dtor with
  | .alive => { s with running := false, dtor := .flushing .entering }
  | .flushing .idle => { s with dtor := .joining }
  | .flushing f =>
    let r := s.flushStep f
    { s with dtor := .flushing r.1, locked := r.2 }
  | .joining => if s.worker = .done then { s with dtor := .returned } else s
  | .returned => s

/-- An action of some thread. -/
inductive Act
  /-- A `log` call whose `try_enqueue` of message `m` is tried once; it fails when the
  queue holds `capacity` messages. -/
  | log (m : Nat)
  /-- The worker takes a step. -/
  | work
  /-- Thread `i` of `flush` takes a step. -/
  | flush (i : Nat)
  /-- The destructor takes a step. -/
  | destroy
  deriving DecidableEq, Repr

/-- One action, with `queue_`'s capacity `capacity`. -/
def act (capacity : Nat) (s : Logger) : Act → Logger
  | .log m => if s.queue.length < capacity then { s with queue := s.queue ++ [m] } else s
  | .work => s.workStep
  | .flush i => s.flushThread i
  | .destroy => s.dtorStep

/-- A finite schedule. -/
def run (capacity : Nat) (s : Logger) (acts : List Act) : Logger := acts.foldl (act capacity) s

/-- States reached from `init n`. -/
inductive Reachable (capacity n : Nat) : Logger → Prop
  | init : Reachable capacity n (init n)
  | step {s : Logger} : Reachable capacity n s → (a : Act) → Reachable capacity n (s.act capacity a)

theorem reachable_run (capacity n : Nat) (acts : List Act) :
    Reachable capacity n (run capacity (init n) acts) := by
  suffices ∀ s, Reachable capacity n s → Reachable capacity n (run capacity s acts) from
    this _ .init
  induction acts with
  | nil => exact fun _ h => h
  | cons a acts ih => exact fun s h => ih _ (h.step a)

/-- `DEFAULT_QUEUE_SIZE`. -/
def defaultQueueSize : Nat := 8192

/-- A thread is blocked in `cv_.wait` while the queue is empty, and no `notify_all` is on
its way: the worker is at neither of its calls. -/
def Stranded (s : Logger) : Prop :=
  s.queue = [] ∧ (Flush.blocked ∈ s.flushers ∨ s.dtor = .flushing .blocked) ∧
    s.worker ≠ .notify ∧ s.worker ≠ .finalNotify

instance (s : Logger) : Decidable s.Stranded :=
  inferInstanceAs (Decidable (_ ∧ _ ∧ _ ∧ _))

section Returned

variable {capacity : Nat} {s : Logger}

/-- Once the worker has returned nothing calls `notify_all`, so a destructor blocked in
`cv_.wait` stays blocked whatever any thread does. -/
theorem act_keeps_dtor_blocked (h : s.worker = .done) (hd : s.dtor = .flushing .blocked)
    (a : Act) : (s.act capacity a).worker = .done ∧ (s.act capacity a).dtor = .flushing .blocked := by
  cases a with
  | log m => simp only [act]; split <;> simp [h, hd]
  | work => simp [act, workStep, h, hd]
  | flush i => simp only [act, flushThread]; split <;> simp [h, hd]
  | destroy => simp [act, dtorStep, hd, flushStep, h]

theorem run_keeps_dtor_blocked (h : s.worker = .done) (hd : s.dtor = .flushing .blocked) :
    ∀ acts, (run capacity s acts).dtor = .flushing .blocked := by
  intro acts
  induction acts generalizing s with
  | nil => exact hd
  | cons a acts ih =>
    obtain ⟨h1, h2⟩ := @act_keeps_dtor_blocked capacity s h hd a
    exact ih h1 h2

end Returned

/-- One message is logged; the destructor sets `running_ = false` and its `flush` finds the
message queued; the worker drains and writes it, calls `notify_all` while nobody waits,
leaves its loop and returns; then the destructor blocks in `cv_.wait`. -/
def lostWakeupTrace : List Act :=
  [.log 7, .destroy, .destroy, .work, .work, .work, .work, .work, .work, .destroy]

/-- After the trace the destructor is blocked in `cv_.wait` with the message written and
the queue empty, the worker has returned, and no continuation wakes it. -/
theorem destructor_flush_never_returns :
    Reachable defaultQueueSize 0 (run defaultQueueSize (init 0) lostWakeupTrace) ∧
      (run defaultQueueSize (init 0) lostWakeupTrace).Stranded ∧
      (run defaultQueueSize (init 0) lostWakeupTrace).written = [7] ∧
      (run defaultQueueSize (init 0) lostWakeupTrace).worker = .done ∧
      ∀ acts, (run defaultQueueSize (run defaultQueueSize (init 0) lostWakeupTrace) acts).dtor =
        .flushing .blocked :=
  ⟨reachable_run _ _ _, by decide, by decide, by decide,
    run_keeps_dtor_blocked (by decide) (by decide)⟩

end Logger

end Logging
end AsyncToolkit
