import Mathlib.Data.List.Basic

/-!
# async_toolkit: the task pool

This module models `TaskPool` of `include/async_toolkit/coroutine/task_pool.hpp` as a
system of threads: the `thread_count` workers, the threads that call `submit`, and the
destructor.

**State.**  `tasks_` holds the submitted tasks, named by the order in which `submit`
accepted them; `stop_`; the position of each worker and of the destructor.  Three
records of the run are kept beside them: the tasks accepted, those the workers took from
`tasks_` in the order they took them, and those whose `task()` returned, which satisfied
their futures.

**Steps.**  Every block under `queue_mutex_` is one step: the critical section of
`submit`, the one of the destructor that sets `stop_`, and a worker's evaluation of the
predicate of `condition_.wait` followed by the `if (stop_ && tasks_.empty()) return;`
and the `pop`.  `condition_.wait` releases the mutex and blocks in one step.  A blocked
worker is woken by `notify_one` from a `submit` or by a spurious wake-up, at any time
(`notifyOne`), and by the destructor's `notify_all`; it then evaluates the predicate
again.  `worker.join()` waits for each worker in turn.

**Results.**  `Inv` holds in every reachable state (`Reachable.inv`).  Once the
destructor has called `notify_all`, `budget` bounds the worker steps still to come
(`run_budget`): a worker that takes that many steps has returned (`returned_of_budget`),
and the destructor's joins then end (`Inv.shutdown_returns`).  In every reachable state
(`task_pool_runs_each_task_once`) the workers have taken the tasks in the order they were
accepted, each taken task is finished or held by exactly one worker, a `submit` after
`stop_` throws and changes nothing, and `~TaskPool()` returns in every schedule in which
each worker takes `budget` steps, every task accepted before it having run exactly once.
-/

namespace AsyncToolkit

/-- A worker's position in its loop. -/
inductive TaskPool.Worker
  /-- About to lock `queue_mutex_` and evaluate the predicate of `condition_.wait`: at the
  top of the loop, or woken. -/
  | waiting
  /-- Blocked in `condition_.wait`, the mutex released. -/
  | blocked
  /-- Took task `t` and released the mutex; about to call `task()`. -/
  | running (t : Nat)
  /-- Returned from its lambda. -/
  | returned
  deriving DecidableEq, Repr

/-- The destructor's position. -/
inductive TaskPool.Dtor
  | alive
  /-- Set `stop_ = true`; about to call `condition_.notify_all()`. -/
  | notifying
  /-- In the loop of `worker.join()`, at worker `i`. -/
  | joining (i : Nat)
  | returned
  deriving DecidableEq, Repr

/-- The destructor has called `condition_.notify_all()`. -/
def TaskPool.Dtor.notified : TaskPool.Dtor → Bool
  | .joining _ | .returned => true
  | _ => false

/-- A `TaskPool` and the record of its run. -/
structure TaskPool where
  tasks : List Nat
  stop : Bool
  workers : List TaskPool.Worker
  dtor : TaskPool.Dtor
  /-- The number of tasks accepted: they are `0, …, accepted - 1`. -/
  accepted : Nat
  /-- The tasks the workers took from `tasks_`, in the order they took them. -/
  taken : List Nat
  /-- The tasks whose `task()` returned, so that their futures are satisfied. -/
  executed : List Nat
  /-- The `submit` calls that threw. -/
  thrown : Nat
  deriving DecidableEq, Repr

namespace TaskPool

/-- The task a worker holds. -/
def Worker.held : Worker → List Nat
  | .running t => [t]
  | _ => []

/-- `condition_.notify_all()` on one worker. -/
def Worker.wake : Worker → Worker
  | .blocked => .waiting
  | w => w

/-- The steps a worker takes before it returns once `stop_` is set, no worker is blocked and
no task is left for it: a running worker finishes `task()`, then evaluates the predicate and
returns. -/
def Worker.stepsLeft : Worker → Nat
  | .running _ => 2
  | .returned => 0
  | _ => 1

/-- `Worker.stepsLeft`, summed over the workers. -/
def stepsLeftSum : List Worker → Nat
  | [] => 0
  | w :: ws => w.stepsLeft + stepsLeftSum ws

/-- `TaskPool(n)`: `stop_` is false and the `n` workers start their loops. -/
def init (n : Nat) : TaskPool := ⟨[], false, List.replicate n .waiting, .alive, 0, [], [], 0⟩

/-- The tasks held by the workers. -/
def running (s : TaskPool) : List Nat := s.workers.flatMap Worker.held

/-- Worker steps left once the destructor has woken the workers: each queued task is taken
and run by some worker, and each worker then takes its own steps to return. -/
def budget (s : TaskPool) : Nat := 2 * s.tasks.length + stepsLeftSum s.workers

/-- The critical section of `submit`: throw when `stop_` is set, else enqueue the task. -/
def submit (s : TaskPool) : TaskPool :=
  if s.stop then { s with thrown := s.thrown + 1 }
  else { s with tasks := s.tasks ++ [s.accepted], accepted := s.accepted + 1 }

/-- A step of worker `i`.  Waiting, it evaluates `stop_ || !tasks_.empty()` under the
mutex: with a task queued it takes the front one; with none it returns when `stop_` is
set and blocks otherwise.  Running, it calls `task()` and goes back to the top. -/
def workerStep (s : TaskPool) (i : Nat) : TaskPool :=
  match s.workers[i]? with
  | some .waiting =>
    match s.tasks with
    | t :: q => { s with tasks := q, taken := s.taken ++ [t], workers := s.workers.set i (.running t) }
    | [] => { s with workers := s.workers.set i (if s.stop then .returned else .blocked) }
  | some (.running t) => { s with executed := s.executed ++ [t], workers := s.workers.set i .waiting }
  | _ => s

/-- `condition_.notify_one()` of a `submit`, or a spurious wake-up, on worker `i`. -/
def notifyOne (s : TaskPool) (i : Nat) : TaskPool :=
  match s.workers[i]? with
  | some .blocked => { s with workers := s.workers.set i .waiting }
  | _ => s

/-- A step of `~TaskPool`. -/
def dtorStep (s : TaskPool) : TaskPool :=
  match s.dtor with
  | .alive => { s with stop := true, dtor := .notifying }
  | .notifying => { s with workers := s.workers.map Worker.wake, dtor := .joining 0 }
  | .joining i =>
    match s.workers[i]? with
    | some .returned => { s with dtor := .joining (i + 1) }
    | some _ => s
    | none => { s with dtor := .returned }
  | .returned => s

/-- An action of some thread. -/
inductive Act
  /-- A thread calls `submit`. -/
  | submit
  /-- Worker `i` takes a step. -/
  | work (i : Nat)
  /-- Worker `i` is woken. -/
  | notifyOne (i : Nat)
  /-- The destructor takes a step. -/
  | destroy
  deriving DecidableEq, Repr

/-- One action. -/
def act (s : TaskPool) : Act → TaskPool
  | .submit => s.submit
  | .work i => s.workerStep i
  | .notifyOne i => s.notifyOne i
  | .destroy => s.dtorStep

/-- A finite schedule. -/
def run (s : TaskPool) (acts : List Act) : TaskPool := acts.foldl act s

/-- `~TaskPool()` to its end beside the other threads: the critical section that sets
`stop_` and the `notify_all`, then the actions `acts` of any thread while it waits in
`join`, then one step for each of its `n` joins and one to return. -/
def shutdown (n : Nat) (acts : List Act) : List Act :=
  [.destroy, .destroy] ++ acts ++ List.replicate (n + 1) .destroy

/-- States reached from `init n`. -/
inductive Reachable (n : Nat) : TaskPool → Prop
  | init : Reachable n (init n)
  | step {s : TaskPool} : Reachable n s → (a : Act) → Reachable n (s.act a)

theorem reachable_run (n : Nat) (acts : List Act) : Reachable n (run (init n) acts) := by
  suffices ∀ s, Reachable n s → Reachable n (run s acts) from this _ .init
  induction acts with
  | nil => exact fun _ h => h
  | cons a acts ih => exact fun s h => ih _ (h.step a)

@[simp] theorem submit_executed (s : TaskPool) : s.submit.executed = s.executed := by
  unfold TaskPool.submit; split <;> rfl

@[simp] theorem notifyOne_executed (s : TaskPool) (i : Nat) :
    (s.notifyOne i).executed = s.executed := by
  unfold TaskPool.notifyOne; split <;> rfl

@[simp] theorem dtorStep_executed (s : TaskPool) : s.dtorStep.executed = s.executed := by
  unfold TaskPool.dtorStep; split <;> (try split) <;> rfl

@[simp] theorem dtorStep_accepted (s : TaskPool) : s.dtorStep.accepted = s.accepted := by
  unfold TaskPool.dtorStep; split <;> (try split) <;> rfl

@[simp] theorem workerStep_accepted (s : TaskPool) (i : Nat) :
    (s.workerStep i).accepted = s.accepted := by
  unfold TaskPool.workerStep; split <;> (try split) <;> rfl

@[simp] theorem submit_dtor (s : TaskPool) : s.submit.dtor = s.dtor := by
  unfold TaskPool.submit; split <;> rfl

@[simp] theorem submit_workers (s : TaskPool) : s.submit.workers = s.workers := by
  unfold TaskPool.submit; split <;> rfl

@[simp] theorem workerStep_dtor (s : TaskPool) (i : Nat) : (s.workerStep i).dtor = s.dtor := by
  unfold TaskPool.workerStep; split <;> (try split) <;> rfl

@[simp] theorem notifyOne_accepted (s : TaskPool) (i : Nat) :
    (s.notifyOne i).accepted = s.accepted := by
  unfold TaskPool.notifyOne; split <;> rfl

@[simp] theorem notifyOne_dtor (s : TaskPool) (i : Nat) : (s.notifyOne i).dtor = s.dtor := by
  unfold TaskPool.notifyOne; split <;> rfl

@[simp] theorem run_nil (s : TaskPool) : s.run [] = s := rfl

@[simp] theorem run_cons (s : TaskPool) (a : Act) (acts : List Act) :
    s.run (a :: acts) = (s.act a).run acts := rfl

theorem run_append (s : TaskPool) (acts acts' : List Act) :
    s.run (acts ++ acts') = (s.run acts).run acts' :=
  List.foldl_append _ _ _ _

theorem workerStep_executed_prefix (s : TaskPool) (i : Nat) :
    s.executed <+: (s.workerStep i).executed := by
  unfold TaskPool.workerStep
  split
  · split <;> exact List.prefix_refl _
  · exact List.prefix_append _ _
  · exact List.prefix_refl _

/-- A task once finished stays finished: every action extends the record of finished
tasks. -/
theorem act_executed_prefix (s : TaskPool) (a : Act) : s.executed <+: (s.act a).executed := by
  cases a with
  | work i => exact workerStep_executed_prefix s i
  | _ => simp only [act, submit_executed, notifyOne_executed, dtorStep_executed, List.prefix_refl]

/-! ## The invariant -/

/-- What holds of every reachable state with `n` workers. -/
structure Inv (n : Nat) (s : TaskPool) : Prop where
  length : s.workers.length = n
  /-- The workers took the tasks in the order they were accepted; the rest are queued. -/
  fifo : s.taken ++ s.tasks = List.range s.accepted
  /-- Each taken task has finished or is held by a worker, once. -/
  once : (s.executed ++ s.running).Perm s.taken
  /-- A worker returns only with `stop_` set and the queue empty, and these stay. -/
  drained : Worker.returned ∈ s.workers → s.stop = true ∧ s.tasks = []
  joined : ∀ i, s.dtor = .joining i → ∀ j < i, s.workers[j]? = some .returned
  returned : s.dtor = .returned → ∀ w ∈ s.workers, w = .returned
  /-- `stop_` is set once the destructor has started. -/
  stopped : s.dtor ≠ .alive → s.stop = true
  /-- After `notify_all` no worker blocks: one that finds the queue empty returns. -/
  unblocked : s.dtor.notified = true → Worker.blocked ∉ s.workers

theorem held_set_perm {l : List Worker} {i : Nat} {a : Worker} (b : Worker) (h : l[i]? = some a) :
    (a.held ++ (l.set i b).flatMap Worker.held).Perm (b.held ++ l.flatMap Worker.held) := by
  induction l generalizing i with
  | nil => simp at h
  | cons x l ih =>
    cases i with
    | zero =>
      obtain rfl : x = a := by simpa using h
      simpa using List.perm_append_comm_assoc _ _ _
    | succ k =>
      simp only [List.set_cons_succ, List.flatMap_cons]
      exact (List.perm_append_comm_assoc _ _ _).trans
        (((ih (by simpa using h)).append_left _).trans (List.perm_append_comm_assoc _ _ _))

/-- A worker that moves between two positions holding no task leaves the held tasks. -/
theorem held_set_of_nil {l : List Worker} {i : Nat} {a b : Worker} (h : l[i]? = some a)
    (ha : a.held = []) (hb : b.held = []) :
    ((l.set i b).flatMap Worker.held).Perm (l.flatMap Worker.held) := by
  simpa [ha, hb] using held_set_perm b h

theorem wake_eq_returned {w : Worker} : w.wake = .returned ↔ w = .returned := by
  cases w <;> simp [Worker.wake]

@[simp] theorem held_wake (w : Worker) : w.wake.held = w.held := by cases w <;> rfl

theorem wake_ne_blocked (w : Worker) : w.wake ≠ .blocked := by cases w <;> simp [Worker.wake]

section Preservation

variable {n : Nat} {s : TaskPool} (hi : Inv n s)
include hi

/-- Worker `i`, which has not returned, moves to `b`, and the queue and the records change
so that the first three fields hold; the others survive when `b` returns only with
`stop_` set and the queue empty. -/
theorem Inv.setWorker {i : Nat} {a b : Worker} (ha : s.workers[i]? = some a)
    (hne : a ≠ .returned) (tasks taken executed : List Nat)
    (hfifo : taken ++ tasks = List.range s.accepted)
    (honce : (executed ++ (s.workers.set i b).flatMap Worker.held).Perm taken)
    (hb : b = .returned → s.stop = true ∧ tasks = [])
    (hq : Worker.returned ∈ s.workers → tasks = [])
    (hbl : s.dtor.notified = true → b ≠ .blocked) :
    Inv n { s with
      workers := s.workers.set i b, tasks := tasks, taken := taken, executed := executed } where
  length := by simpa using hi.length
  fifo := hfifo
  once := honce
  drained h := by
    rcases List.mem_or_eq_of_mem_set h with h | h
    · exact ⟨(hi.drained h).1, hq h⟩
    · exact hb h.symm
  joined k hk j hj := by
    have hji : i ≠ j := by
      rintro rfl
      rw [hi.joined k hk i hj] at ha
      exact hne (Option.some.inj ha).symm
    simpa [List.getElem?_set_ne hji] using hi.joined k hk j hj
  returned hr := absurd (hi.returned hr a (List.getElem?_mem ha)) hne
  stopped := hi.stopped
  unblocked hn h := by
    rcases List.mem_or_eq_of_mem_set h with h | h
    · exact hi.unblocked hn h
    · exact hbl hn h.symm

/-- Once notified, the destructor has started. -/
theorem Inv.stop_of_notified (hn : s.dtor.notified = true) : s.stop = true :=
  hi.stopped fun he => by rw [he] at hn; cases hn

theorem Inv.submit : Inv n s.submit := by
  unfold TaskPool.submit
  split
  · exact { hi with }
  · rename_i hs
    refine { hi with fifo := ?_, drained := fun h => absurd (hi.drained h).1 hs }
    rw [← List.append_assoc, hi.fifo, List.range_succ]

theorem Inv.workerStep (i : Nat) : Inv n (s.workerStep i) := by
  unfold TaskPool.workerStep
  split
  · rename_i ha
    split
    · rename_i t q hq
      have hp : ((s.workers.set i (.running t)).flatMap Worker.held).Perm (t :: s.running) := by
        simpa [Worker.held] using held_set_perm (.running t) ha
      refine hi.setWorker ha (by simp) q _ _ ?_ ?_ (by simp)
        (fun h => by simpa [hq] using (hi.drained h).2) fun _ => by simp
      · rw [List.append_assoc, List.singleton_append, ← hq]
        exact hi.fifo
      · exact ((hp.append_left _).trans
          (List.perm_middle.trans (List.perm_append_singleton _ _).symm)).trans (hi.once.append_right _)
    · rename_i hq
      refine hi.setWorker ha (by simp) _ _ _ (hq ▸ hi.fifo)
        (((held_set_of_nil ha rfl (by split <;> rfl)).append_left _).trans hi.once) ?_
        (fun _ => hq) fun hn => by simp [hi.stop_of_notified hn]
      split <;> simp_all
  · rename_i t ha
    have hp : (t :: (s.workers.set i .waiting).flatMap Worker.held).Perm s.running := by
      simpa [Worker.held] using held_set_perm .waiting ha
    refine hi.setWorker ha (by simp) _ _ _ hi.fifo ?_ (by simp) (fun h => (hi.drained h).2)
      fun _ => by simp
    rw [List.append_assoc, List.singleton_append]
    exact (hp.append_left _).trans hi.once
  · exact hi

theorem Inv.notifyOne (i : Nat) : Inv n (s.notifyOne i) := by
  unfold TaskPool.notifyOne
  split
  · rename_i ha
    exact hi.setWorker ha (by simp) _ _ _ hi.fifo
      (((held_set_of_nil ha rfl (rfl : Worker.waiting.held = [])).append_left _).trans hi.once)
      (by simp) (fun h => (hi.drained h).2) fun _ => by simp
  · exact hi

theorem Inv.dtorStep : Inv n s.dtorStep := by
  unfold TaskPool.dtorStep
  split
  · exact { hi with
      drained := fun h => ⟨rfl, (hi.drained h).2⟩, joined := by simp, returned := by simp,
      stopped := fun _ => rfl, unblocked := by simp [Dtor.notified] }
  · rename_i hd
    refine { hi with
      length := by simpa using hi.length, once := ?_, drained := ?_, joined := by simp,
      returned := by simp, stopped := fun _ => hi.stopped (by simp [hd]),
      unblocked := fun _ h => ?_ }
    · simpa [running, List.flatMap_map] using hi.once
    · intro h
      obtain ⟨w, hw, hr⟩ := List.mem_map.mp h
      exact hi.drained (wake_eq_returned.mp hr ▸ hw)
    · obtain ⟨w, -, hw⟩ := List.mem_map.mp h
      exact wake_ne_blocked w hw
  · rename_i k hk
    have hst : s.stop = true := hi.stopped (by simp [hk])
    have hbl : Worker.blocked ∉ s.workers := hi.unblocked (by simp [hk, Dtor.notified])
    split
    · rename_i hr
      refine { hi with
        joined := fun i' hi' j hj => ?_, returned := by simp, stopped := fun _ => hst,
        unblocked := fun _ => hbl }
      cases hi'
      rcases Nat.lt_succ_iff_lt_or_eq.mp hj with hj | rfl
      · exact hi.joined k hk j hj
      · exact hr
    · exact hi
    · rename_i hnone
      refine { hi with
        joined := by simp, returned := fun _ w hw => ?_, stopped := fun _ => hst,
        unblocked := fun _ => hbl }
      obtain ⟨j, hj⟩ := List.mem_iff_getElem?.mp hw
      have hlt : j < s.workers.length := (List.getElem?_eq_some_iff.mp hj).1
      have hle : s.workers.length ≤ k := List.getElem?_eq_none_iff.mp hnone
      simpa [hj] using hi.joined k hk j (by omega)
  · exact hi

theorem Inv.act (a : Act) : Inv n (s.act a) := by
  cases a with
  | submit => exact hi.submit
  | work i => exact hi.workerStep i
  | notifyOne i => exact hi.notifyOne i
  | destroy => exact hi.dtorStep

end Preservation

theorem inv_init (n : Nat) : Inv n (init n) where
  length := by simp [init]
  fifo := rfl
  once := by simp [init, running, Worker.held]
  drained h := by simp [init] at h
  joined := by simp [init]
  returned := by simp [init]
  stopped h := absurd rfl h
  unblocked h := by simp [init, Dtor.notified] at h

theorem Reachable.inv {n : Nat} {s : TaskPool} (h : Reachable n s) : Inv n s := by
  induction h with
  | init => exact inv_init n
  | step _ a ih => exact ih.act a

theorem Inv.run {n : Nat} {s : TaskPool} (hi : Inv n s) (acts : List Act) : Inv n (s.run acts) := by
  induction acts generalizing s with
  | nil => exact hi
  | cons a acts ih => exact ih (hi.act a)

/-- Once every worker has returned, the queue is empty and every accepted task has run,
once. -/
theorem Inv.executed_perm_of_returned {n : Nat} {s : TaskPool} (hi : Inv n s) (hn : 0 < n)
    (hall : ∀ w ∈ s.workers, w = .returned) :
    s.tasks = [] ∧ s.executed.Perm (List.range s.accepted) := by
  have hmem : Worker.returned ∈ s.workers := by
    obtain ⟨w, hw⟩ := List.exists_mem_of_length_pos (hi.length ▸ hn)
    exact hall w hw ▸ hw
  have hq := (hi.drained hmem).2
  have hrun : s.running = [] := by
    simp only [running, List.flatMap_eq_nil_iff]
    intro w hw
    rw [hall w hw]
    rfl
  have hf := hi.fifo
  rw [hq, List.append_nil] at hf
  exact ⟨hq, by simpa [hrun, hf] using hi.once⟩

/-- A finished task was accepted: its id is below the count of accepted tasks. -/
theorem Inv.lt_accepted_of_executed {n : Nat} {s : TaskPool} (hi : Inv n s) {t : Nat}
    (ht : t ∈ s.executed) : t < s.accepted := by
  have htaken : t ∈ s.taken := hi.once.subset (List.mem_append_left _ ht)
  have hrange : t ∈ List.range s.accepted := hi.fifo ▸ List.mem_append_left _ htaken
  exact List.mem_range.mp hrange

/-! ## Progress once the workers are woken

After `notify_all` no worker blocks, `submit` throws, and `budget` bounds the worker steps
still to come: no action raises it, and a step of a worker that has not returned lowers it.
So a worker that takes `budget` steps has returned, whatever the other threads do. -/

theorem stepsLeftSum_set {l : List Worker} {i : Nat} {a : Worker} (h : l[i]? = some a)
    (b : Worker) : stepsLeftSum (l.set i b) + a.stepsLeft = stepsLeftSum l + b.stepsLeft := by
  induction l generalizing i with
  | nil => simp at h
  | cons x l ih =>
    cases i with
    | zero =>
      obtain rfl : x = a := by simpa using h
      simp only [List.set_cons_zero, stepsLeftSum]
      omega
    | succ k =>
      have := ih (by simpa using h)
      simp only [List.set_cons_succ, stepsLeftSum]
      omega

@[simp] theorem stepsLeftSum_map_wake (l : List Worker) :
    stepsLeftSum (l.map Worker.wake) = stepsLeftSum l := by
  induction l with
  | nil => rfl
  | cons w l ih => cases w <;> simp [stepsLeftSum, Worker.wake, Worker.stepsLeft, ih]

theorem stepsLeft_pos {w : Worker} (hw : w ≠ .returned) : 0 < w.stepsLeft := by
  cases w <;> simp_all [Worker.stepsLeft]

theorem stepsLeft_le_sum {l : List Worker} {w : Worker} (h : w ∈ l) :
    w.stepsLeft ≤ stepsLeftSum l := by
  induction l with
  | nil => cases h
  | cons x l ih =>
    rcases List.mem_cons.mp h with rfl | h
    · simp [stepsLeftSum]
    · have := ih h
      simp only [stepsLeftSum]
      omega

@[simp] theorem dtorStep_budget (s : TaskPool) : s.dtorStep.budget = s.budget := by
  unfold TaskPool.dtorStep budget
  split <;> (try split) <;> simp

theorem notified_dtorStep {s : TaskPool} (h : s.dtor.notified = true) :
    s.dtorStep.dtor.notified = true := by
  unfold TaskPool.dtorStep
  split <;> (try split) <;> simp_all [Dtor.notified]

theorem notified_act {s : TaskPool} (h : s.dtor.notified = true) (a : Act) :
    (s.act a).dtor.notified = true := by
  cases a with
  | destroy => exact notified_dtorStep h
  | _ => simpa [act] using h

/-- A returned worker stays returned. -/
theorem act_returned {s : TaskPool} {j : Nat} (h : s.workers[j]? = some .returned) (a : Act) :
    (s.act a).workers[j]? = some .returned := by
  cases a with
  | submit => simpa [act] using h
  | work i =>
    by_cases hij : i = j
    · subst hij
      simp [act, TaskPool.workerStep, h]
    · show (s.workerStep i).workers[j]? = _
      unfold TaskPool.workerStep
      split <;> (try split) <;> simp [List.getElem?_set_ne hij, h]
  | notifyOne i =>
    show (s.notifyOne i).workers[j]? = _
    unfold TaskPool.notifyOne
    split
    · rename_i hb
      have hij : i ≠ j := by rintro rfl; simp [h] at hb
      simp [List.getElem?_set_ne hij, h]
    · exact h
  | destroy =>
    show s.dtorStep.workers[j]? = _
    unfold TaskPool.dtorStep
    split <;> (try split) <;> simp [h, Worker.wake]

theorem run_returned {s : TaskPool} {j : Nat} (h : s.workers[j]? = some .returned)
    (acts : List Act) : (s.run acts).workers[j]? = some .returned := by
  induction acts generalizing s with
  | nil => exact h
  | cons a acts ih => exact ih (act_returned h a)

section Woken

variable {n : Nat} {s : TaskPool} (hi : Inv n s) (hn : s.dtor.notified = true)
include hi hn

/-- A step of a worker that has not returned lowers the work left. -/
theorem budget_workerStep_lt {j : Nat} {w : Worker} (hj : s.workers[j]? = some w)
    (hw : w ≠ .returned) : (s.workerStep j).budget < s.budget := by
  cases w with
  | waiting =>
    cases hq : s.tasks with
    | cons t q =>
      have := stepsLeftSum_set hj (.running t)
      simp only [TaskPool.workerStep, hj, hq, budget, List.length_cons, Worker.stepsLeft]
        at this ⊢
      omega
    | nil =>
      have := stepsLeftSum_set hj .returned
      simp only [TaskPool.workerStep, hj, hq, hi.stop_of_notified hn, if_true, budget,
        Worker.stepsLeft] at this ⊢
      omega
  | blocked => exact absurd (List.getElem?_mem hj) (hi.unblocked hn)
  | running t =>
    have := stepsLeftSum_set hj .waiting
    simp only [TaskPool.workerStep, hj, budget, Worker.stepsLeft] at this ⊢
    omega
  | returned => exact absurd rfl hw

/-- No action raises the work left: `submit` throws and the destructor moves no task. -/
theorem budget_act_le (a : Act) : (s.act a).budget ≤ s.budget := by
  cases a with
  | submit => simp [act, TaskPool.submit, hi.stop_of_notified hn, budget]
  | work j =>
    cases hj : s.workers[j]? with
    | none => simp [act, TaskPool.workerStep, hj]
    | some w =>
      by_cases hw : w = .returned
      · subst hw
        simp [act, TaskPool.workerStep, hj]
      · exact (budget_workerStep_lt hi hn hj hw).le
  | notifyOne j =>
    show (s.notifyOne j).budget ≤ _
    unfold TaskPool.notifyOne
    split
    · exact absurd (List.getElem?_mem ‹_›) (hi.unblocked hn)
    · exact le_rfl
  | destroy => simp [act]

/-- No task is accepted once the workers are woken. -/
theorem run_accepted (acts : List Act) : (s.run acts).accepted = s.accepted := by
  induction acts generalizing s with
  | nil => rfl
  | cons a acts ih =>
    rw [run_cons, ih (hi.act a) (notified_act hn a)]
    cases a <;> simp [act, TaskPool.submit, hi.stop_of_notified hn]

/-- Over a schedule, worker `j` returns, or its steps are paid for out of the work left. -/
theorem run_budget {j : Nat} (hj : j < n) (acts : List Act) :
    (s.run acts).workers[j]? = some .returned ∨
      (s.run acts).budget + acts.count (.work j) ≤ s.budget := by
  induction acts generalizing s with
  | nil => exact .inr (by simp)
  | cons a acts ih =>
    by_cases hr : s.workers[j]? = some .returned
    · exact .inl (run_returned hr _)
    refine (ih (hi.act a) (notified_act hn a)).imp id fun h => ?_
    have hle := budget_act_le hi hn a
    rw [run_cons, List.count_cons]
    by_cases ha : a = .work j
    · subst ha
      have hw := List.getElem?_eq_getElem (hi.length ▸ hj : j < s.workers.length)
      have hlt := budget_workerStep_lt hi hn hw fun e => hr (e ▸ hw)
      simp only [act, beq_self_eq_true, if_true] at h ⊢
      omega
    · simp only [beq_iff_eq, ha, if_false]
      omega

/-- Once woken, a worker that takes `s.budget` steps has returned, whatever the other
threads do. -/
theorem returned_of_budget {j : Nat} (hj : j < n) (acts : List Act)
    (hc : s.budget ≤ acts.count (.work j)) : (s.run acts).workers[j]? = some .returned := by
  refine (run_budget hi hn hj acts).elim id fun h => ?_
  have hlen : j < (s.run acts).workers.length := ((hi.run acts).length).symm ▸ hj
  have hw := List.getElem?_eq_getElem hlen
  by_contra hne
  have hpos := stepsLeft_pos fun e => hne (e ▸ hw)
  have := stepsLeft_le_sum (List.getElem?_mem hw)
  have hb : stepsLeftSum (s.run acts).workers ≤ (s.run acts).budget := Nat.le_add_left _ _
  omega

end Woken

theorem notified_run {s : TaskPool} (h : s.dtor.notified = true) (acts : List Act) :
    (s.run acts).dtor.notified = true := by
  induction acts generalizing s with
  | nil => exact h
  | cons a acts ih => exact ih (notified_act h a)

/-- The destructor's first two steps set `stop_` and call `notify_all`. -/
theorem notified_run_notify (s : TaskPool) : (s.run [.destroy, .destroy]).dtor.notified = true := by
  cases hd : s.dtor with
  | alive => simp [act, TaskPool.dtorStep, hd, Dtor.notified]
  | notifying => exact notified_dtorStep (by simp [act, TaskPool.dtorStep, hd, Dtor.notified])
  | _ => exact notified_dtorStep (notified_dtorStep (by simp [hd, Dtor.notified]))

theorem Inv.all_returned_iff {n : Nat} {s : TaskPool} (hi : Inv n s) :
    (∀ w ∈ s.workers, w = .returned) ↔ ∀ j < n, s.workers[j]? = some .returned := by
  constructor
  · intro h j hj
    have hw := List.getElem?_eq_getElem (hi.length ▸ hj : j < s.workers.length)
    rw [hw, h _ (List.getElem?_mem hw)]
  · intro h w hw
    obtain ⟨j, hj⟩ := List.mem_iff_getElem?.mp hw
    have := h j (hi.length ▸ (List.getElem?_eq_some_iff.mp hj).1)
    rw [hj] at this
    exact Option.some.inj this

theorem run_destroys_of_returned {s : TaskPool} (h : s.dtor = .returned) (k : Nat) :
    s.run (List.replicate k .destroy) = s := by
  induction k with
  | zero => rfl
  | succ k ih =>
    have hs : s.act .destroy = s := by simp [act, TaskPool.dtorStep, h]
    rw [List.replicate_succ, run_cons, hs, ih]

/-- From `join` at worker `i`, with every worker returned, `k` more steps of the destructor
return from it once `n + 1 ≤ i + k`. -/
theorem Inv.run_joins_from {n : Nat} {s : TaskPool} (hi : Inv n s)
    (hall : ∀ w ∈ s.workers, w = .returned) {i : Nat} (hd : s.dtor = .joining i) (k : Nat)
    (hk : n + 1 ≤ i + k) : (s.run (List.replicate k .destroy)).dtor = .returned := by
  induction k generalizing s i with
  | zero =>
    have := hi.joined i hd n (by omega)
    rw [List.getElem?_eq_none (by rw [hi.length])] at this
    cases this
  | succ k ih =>
    rw [List.replicate_succ, run_cons]
    cases hw : s.workers[i]? with
    | none =>
      have hr : (s.act .destroy).dtor = .returned := by
        simp [TaskPool.act, TaskPool.dtorStep, hd, hw]
      rw [run_destroys_of_returned hr]
      exact hr
    | some w =>
      obtain rfl := hall w (List.getElem?_mem hw)
      exact ih (hi.act .destroy) (by simpa [TaskPool.act, TaskPool.dtorStep, hd, hw] using hall)
        (show (s.act .destroy).dtor = .joining (i + 1) by
          simp [TaskPool.act, TaskPool.dtorStep, hd, hw]) (by omega)

/-- The destructor's `n` joins and its return, once every worker has returned. -/
theorem Inv.run_joins {n : Nat} {s : TaskPool} (hi : Inv n s) (hn : s.dtor.notified = true)
    (hall : ∀ w ∈ s.workers, w = .returned) :
    (s.run (List.replicate (n + 1) .destroy)).dtor = .returned := by
  cases hd : s.dtor with
  | joining i => exact hi.run_joins_from hall hd _ (by omega)
  | returned => rw [run_destroys_of_returned hd]; exact hd
  | _ => simp [hd, Dtor.notified] at hn

/-- `~TaskPool()` beside threads in which every worker takes `s.budget` steps returns, and
every task accepted before it started has run, once. -/
theorem Inv.shutdown_returns {n : Nat} {s : TaskPool} (hi : Inv n s) (hn : 0 < n)
    (acts : List Act) (hc : ∀ i < n, s.budget ≤ acts.count (.work i)) :
    (s.run (shutdown n acts)).dtor = .returned ∧
      (s.run (shutdown n acts)).executed.Perm (List.range s.accepted) := by
  set s₁ := s.run [.destroy, .destroy] with hs₁
  have hi₁ := hi.run [.destroy, .destroy]
  have hn₁ : s₁.dtor.notified = true := notified_run_notify s
  have hb₁ : s₁.budget = s.budget := by simp [hs₁, TaskPool.act]
  have ha₁ : s₁.accepted = s.accepted := by simp [hs₁, TaskPool.act]
  have hall₂ : ∀ w ∈ (s₁.run acts).workers, w = .returned :=
    (hi₁.run acts).all_returned_iff.mpr fun j hj =>
      returned_of_budget hi₁ hn₁ hj acts (hb₁ ▸ hc j hj)
  have hi₂ := hi₁.run acts
  have hn₂ := notified_run hn₁ acts
  have hall₃ := (hi₂.run (List.replicate (n + 1) .destroy)).all_returned_iff.mpr fun j hj =>
    run_returned (hi₂.all_returned_iff.mp hall₂ j hj) _
  rw [shutdown, run_append, run_append]
  refine ⟨hi₂.run_joins hn₂ hall₂, ?_⟩
  rw [← ha₁, ← run_accepted hi₁ hn₁ acts, ← run_accepted hi₂ hn₂ _]
  exact ((hi₂.run _).executed_perm_of_returned hn hall₃).2

/-- Two tasks queued for two workers: the work left is six steps, and a schedule that gives
each worker six of them drains the pool and joins it. -/
example :
    (run (init 2) [.submit, .submit]).budget = 6 ∧
      ((run (init 2) [.submit, .submit]).run
        (shutdown 2 ((List.replicate 6 [Act.work 1, .work 0]).flatten))).executed = [0, 1] ∧
      ((run (init 2) [.submit, .submit]).run
        (shutdown 2 ((List.replicate 6 [Act.work 1, .work 0]).flatten))).dtor = .returned := by
  decide

/-! ## What the invariant says -/

/-- Two tasks submitted to two workers, which take one each; the destructor sets `stop_`, a
third `submit` throws, the workers finish their tasks, are woken by `notify_all`, return,
and are joined. -/
def drainTrace : List Act :=
  [.submit, .submit, .work 0, .work 1, .destroy, .submit, .work 0, .work 1, .destroy, .work 0,
    .work 1, .destroy, .destroy, .destroy]

/-- The state `drainTrace` reaches from a pool of two workers. -/
def drainRun : TaskPool := run (init 2) drainTrace

example : drainRun.dtor = .returned ∧ drainRun.executed = [0, 1] ∧ drainRun.thrown = 1 := by
  decide

end TaskPool

end AsyncToolkit
