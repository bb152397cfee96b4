import Mathlib.Algebra.Group.Nat.Basic
import Mathlib.Data.List.Perm.Basic

/-!
# async_toolkit: the priority scheduler

This module models `scheduler::PriorityScheduler` of
`include/async_toolkit/scheduler/priority_scheduler.hpp` as a step relation.

**State.**  The heap `tasks_`, the flag `stop_`, the counter `next_task_id_` (a
`size_t`), the clock `steady_clock::now()`, the workers, the callers of
`schedule_at` that are between their steps, and the destructor.  A task is kept
without its callable: its priority, schedule time and id.  Three ghost fields
record the run: how many ids were issued, the tasks dispatched, and the ids for
which `cancel` returned `true`.

**Heap.**  `std::priority_queue<Task>` is a max-heap for `Task::operator<`:
`top()` is an element that no other element ranks above.  Among tasks of equal
rank the library's choice is unspecified; `top` takes the first in list order.

**Steps.**  A worker step runs with the mutex held: it evaluates the predicate
of `condition_.wait` and either blocks, returns, pops the top task, or loops.
A blocked worker moves only when notified (or on a spurious wake-up).
`schedule_at` is three steps: take an id, push under the mutex, `notify_one`.
`cancel` is one step under the mutex: it drains the heap and pushes back the
tasks whose id differs.  The clock advances by any amount.
-/

namespace AsyncToolkit
namespace Scheduler

/-- `Task` without its callable. -/
structure Task where
  priority : Int
  scheduleTime : Int
  taskId : Nat
  deriving DecidableEq, Repr

/-- `Task::operator<`. -/
def Task.lt (a b : Task) : Bool :=
  if a.priority ≠ b.priority then a.priority < b.priority else a.scheduleTime > b.scheduleTime

/-- `u` must run before `t`: higher priority, or equal priority and an earlier time. -/
def Task.Outranks (u t : Task) : Prop :=
  t.priority < u.priority ∨ (u.priority = t.priority ∧ u.scheduleTime < t.scheduleTime)

/-- `tasks_.top()`: a task no other task ranks above; the first such in list order. -/
def top : List Task → Option Task
  | [] => none
  | t :: ts =>
    match top ts with
    | none => some t
    | some u => if Task.lt t u then some u else some t

/-- `tasks_.push(task)`. -/
def push (t : Task) (heap : List Task) : List Task := heap ++ [t]

/-- `tasks_.pop()` after `top()` returned `t`. -/
def pop (t : Task) (heap : List Task) : List Task := heap.erase t

/-- A worker thread, at the granularity of the mutex. -/
inductive Worker where
  /-- At the top of `while (true)`, about to lock. -/
  | ready
  /-- Inside `condition_.wait`, not notified. -/
  | blocked
  /-- Woken inside `condition_.wait`, about to reacquire the mutex and re-check. -/
  | notified
  /-- Running `task.func()` with the mutex released. -/
  | running (task : Task)
  /-- Returned from `worker_loop`. -/
  | exited
  deriving DecidableEq

/-- A thread inside `schedule_at`. -/
inductive Caller where
  | idle
  /-- Took its id, about to lock and push. -/
  | pushing (task : Task)
  /-- Pushed, about to call `condition_.notify_one()`. -/
  | notifying
  deriving DecidableEq

/-- The destructor's progress. -/
inductive Destructor where
  | alive
  /-- Set `stop_` under the mutex, about to call `condition_.notify_all()`. -/
  | stopping
  /-- Notified all, joining the workers. -/
  | joining
  deriving DecidableEq

/-- The scheduler and the threads that use it. -/
structure Sched where
  tasks : List Task
  stop : Bool
  nextTaskId : Nat
  now : Int
  workers : List Worker
  callers : List Caller
  destructor : Destructor
  issued : Nat
  dispatched : List Task
  cancelled : List Nat

namespace Sched

/-- `PriorityScheduler(n)` with `m` caller threads, at time `t0`. -/
def init (n m : Nat) (t0 : Int) : Sched :=
  ⟨[], false, 0, t0, List.replicate n .ready, List.replicate m .idle, .alive, 0, [], []⟩

/-- The heap's top task is due. -/
def due (s : Sched) : Bool :=
  match top s.tasks with
  | some t => decide (t.scheduleTime ≤ s.now)
  | none => false

/-- A worker holding the mutex evaluates `stop_ || (!tasks_.empty() && top due)`; when it
holds, `if (stop_ && tasks_.empty()) return;`, then pop the top task if it is due.  The
result is the worker's next state and the task it took. -/
def check (s : Sched) : Worker × Option Task :=
  if !(s.stop || s.due) then (.blocked, none)
  else if s.stop && s.tasks.isEmpty then (.exited, none)
  else
    match top s.tasks with
    | some t => if t.scheduleTime ≤ s.now then (.running t, some t) else (.ready, none)
    | none => (.ready, none)

/-- Worker `w`; a worker that does not exist has exited. -/
def worker (s : Sched) (w : Nat) : Worker := s.workers.getD w .exited


/-- One step of worker `w`, and the task it dispatched. -/
def workerStep (s : Sched) (w : Nat) : Sched × Option Task :=
  match s.worker w with
  | .ready | .notified =>
    let r := s.check
    ({ s with workers := s.workers.set w r.1, tasks := r.2.elim s.tasks (pop · s.tasks),
               dispatched := s.dispatched ++ r.2.toList }, r.2)
  | .running _ => ({ s with workers := s.workers.set w .ready }, none)
  | _ => (s, none)

/-- `schedule_at(func, time, priority)` by caller `c`: `task_id = next_task_id_++`. -/
def scheduleAt (s : Sched) (c : Nat) (time priority : Int) : Sched :=
  match s.callers[c]? with
  | some .idle =>
    { s with callers := s.callers.set c (.pushing ⟨priority, time, s.nextTaskId⟩)
             nextTaskId := (s.nextTaskId + 1) % 2 ^ 64
             issued := s.issued + 1 }
  | _ => s

/-- `{ std::unique_lock lock(mutex_); tasks_.push(std::move(task)); }` -/
def pushStep (s : Sched) (c : Nat) : Sched :=
  match s.callers[c]? with
  | some (.pushing t) => { s with tasks := push t s.tasks, callers := s.callers.set c .notifying }
  | _ => s

/-- Some worker is blocked in `condition_.wait`. -/
def anyBlocked (s : Sched) : Bool := s.workers.any (· == .blocked)

/-- `condition_.notify_one()` by caller `c`, waking worker `w`; with no worker blocked the
notification is lost. -/
def notifyOne (s : Sched) (c w : Nat) : Sched :=
  match s.callers[c]? with
  | some .notifying =>
    if s.worker w = .blocked then
      { s with workers := s.workers.set w .notified, callers := s.callers.set c .idle }
    else if !s.anyBlocked then { s with callers := s.callers.set c .idle }
    else s
  | _ => s

/-- The draining loop of `cancel`: pop every task, keep those whose id differs, and
report whether one had the id. -/
def drain (id : Nat) : Nat → List Task → List Task × Bool
  | 0, _ => ([], false)
  | fuel + 1, heap =>
    match top heap with
    | none => ([], false)
    | some t =>
      let r := drain id fuel (pop t heap)
      if t.taskId ≠ id then (t :: r.1, r.2) else (r.1, true)

/-- `cancel(task_id)`: drain the heap, push the kept tasks back, return `found`. -/
def cancel (s : Sched) (id : Nat) : Bool × Sched :=
  let r := drain id s.tasks.length s.tasks
  (r.2, { s with tasks := r.1.foldl (fun h t => push t h) []
                 cancelled := if r.2 then s.cancelled ++ [id] else s.cancelled })

/-- A scheduler action. -/
inductive Act where
  /-- Caller `c` calls `schedule_at(f, time, priority)`. -/
  | scheduleAt (c : Nat) (time priority : Int)
  /-- Caller `c` calls `schedule_after(f, delay, priority)`. -/
  | scheduleAfter (c : Nat) (delay priority : Int)
  /-- Caller `c` calls `schedule(f, priority)`. -/
  | schedule (c : Nat) (priority : Int)
  /-- Caller `c` pushes its task. -/
  | push (c : Nat)
  /-- Caller `c` calls `notify_one`, waking worker `w` if it is blocked. -/
  | notify (c w : Nat)
  /-- Some thread calls `cancel(id)`. -/
  | cancel (id : Nat)
  /-- Worker `w` takes a step. -/
  | work (w : Nat)
  /-- Worker `w` wakes up spuriously. -/
  | wakeSpuriously (w : Nat)
  /-- The clock advances by `d`. -/
  | tick (d : Nat)
  /-- `~PriorityScheduler`: `stop_ = true` under the mutex. -/
  | setStop
  /-- `~PriorityScheduler`: `condition_.notify_all()`. -/
  | notifyAll

/-- Wake every blocked worker. -/
def wakeAll : Worker → Worker
  | .blocked => .notified
  | w => w

/-- One action. -/
def act (s : Sched) : Act → Sched
  | .scheduleAt c time priority => s.scheduleAt c time priority
  | .scheduleAfter c delay priority => s.scheduleAt c (s.now + delay) priority
  | .schedule c priority => s.scheduleAt c s.now priority
  | .push c => s.pushStep c
  | .notify c w => s.notifyOne c w
  | .cancel id => (s.cancel id).2
  | .work w => (s.workerStep w).1
  | .wakeSpuriously w =>
    if s.worker w = .blocked then { s with workers := s.workers.set w .notified } else s
  | .tick d => { s with now := s.now + d }
  | .setStop =>
    if s.destructor = .alive then { s with stop := true, destructor := .stopping } else s
  | .notifyAll =>
    if s.destructor = .stopping then
      { s with workers := s.workers.map wakeAll, destructor := .joining }
    else s

/-- A finite schedule. -/
def run (s : Sched) (acts : List Act) : Sched := acts.foldl act s

/-- States reached from `init n m t0`. -/
inductive Reachable (n m : Nat) (t0 : Int) : Sched → Prop
  | init : Reachable n m t0 (init n m t0)
  | step {s : Sched} : Reachable n m t0 s → (a : Act) → Reachable n m t0 (s.act a)

theorem reachable_run (n m : Nat) (t0 : Int) (acts : List Act) :
    Reachable n m t0 (run (init n m t0) acts) := by
  suffices ∀ s, Reachable n m t0 s → Reachable n m t0 (run s acts) from this _ .init
  induction acts with
  | nil => exact fun _ h => h
  | cons a acts ih => exact fun s h => ih _ (h.step a)

/-- Every worker is blocked in `condition_.wait`, no notification is on its way (no
caller inside `schedule_at`, the destructor not started), yet the scheduler is running
and the top task is due. -/
def Stranded (s : Sched) : Prop :=
  s.stop = false ∧ s.due = true ∧ (∀ w ∈ s.workers, w = .blocked) ∧
    (∀ c ∈ s.callers, c = .idle) ∧ s.destructor = .alive

instance (s : Sched) : Decidable s.Stranded :=
  inferInstanceAs (Decidable (_ ∧ _ ∧ _ ∧ _ ∧ _))

/-- One worker blocks on the empty heap; a caller schedules a task 100 ticks ahead and
notifies; the worker re-checks, finds the task not yet due and blocks again; then the
clock passes the task's time. -/
def delayTrace : List Act :=
  [.work 0, .scheduleAfter 0 100 0, .push 0, .notify 0 0, .work 0, .tick 100]

theorem delayed_task_stranded :
    Reachable 1 1 0 (run (init 1 1 0) delayTrace) ∧ (run (init 1 1 0) delayTrace).Stranded :=
  ⟨reachable_run _ _ _ _, by decide⟩

/-- A caller schedules a task due now and one 100 ticks ahead; then the destructor sets
`stop_` and notifies all. -/
def stopTrace : List Act :=
  [.schedule 0 0, .push 0, .notify 0 0, .scheduleAfter 0 100 0, .push 0, .notify 0 0,
    .setStop, .notifyAll]

/-- After the stop the worker pops the due task and runs it, loops on the delayed task
until the clock reaches it, runs it, and only then returns. -/
def drainTrace : List Act :=
  [.work 0, .work 0, .work 0, .tick 100, .work 0, .work 0, .work 0]

/-- `stop_` set with both tasks in the heap and none dispatched; three worker steps later
the worker has run the due task and is still looping (not returned) on the delayed one;
at the end it has run both and returned. -/
theorem shutdown_runs_pending_tasks :
    Reachable 1 1 0 (run (init 1 1 0) (stopTrace ++ drainTrace)) ∧
      (run (init 1 1 0) stopTrace).stop = true ∧
      (run (init 1 1 0) stopTrace).tasks.length = 2 ∧
      (run (init 1 1 0) stopTrace).dispatched = [] ∧
      (run (init 1 1 0) (stopTrace ++ drainTrace.take 3)).worker 0 = .ready ∧
      (run (init 1 1 0) (stopTrace ++ drainTrace.take 3)).dispatched = [⟨0, 0, 0⟩] ∧
      (run (init 1 1 0) (stopTrace ++ drainTrace)).dispatched = [⟨0, 0, 0⟩, ⟨0, 100, 1⟩] ∧
      (run (init 1 1 0) (stopTrace ++ drainTrace)).worker 0 = .exited :=
  ⟨reachable_run _ _ _ _, by decide⟩

end Sched

end Scheduler
end AsyncToolkit
