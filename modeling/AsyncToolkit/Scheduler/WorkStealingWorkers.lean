import AsyncToolkit.Scheduler.WorkStealing
import Mathlib.Data.List.Perm.Basic

/-!
# async_toolkit: the workers of the work-stealing scheduler

This module models the worker side of `scheduler::WorkStealingScheduler` of
`include/async_toolkit/scheduler/work_stealing_scheduler.hpp`, `worker_loop` and the
destructor, interleaved with the submissions modelled in
`AsyncToolkit.Scheduler.WorkStealing`.

**Steps.**  A worker is at the test of its `while (running_)`, past it, or returned.  Past
the test, one step is the rest of one iteration: `try_pop` of its own deque (the back),
or else, when the random draw gave a victim `v ≠ i`, `try_steal` from deque `v` (the
front), and running the task taken; or, with nothing taken, the bounded wait on `cv_`,
which changes nothing.  Each deque holds its mutex for the whole `try_pop` or `try_steal`,
and a task runs on its worker's thread before the next test, so a task is run in the step
that takes it.  The destructor stores `running_ = false`; it then joins the threads and
destroys `queues_` with the tasks still in them.

**Results.**  `work_stealing_conserves_tasks`: the tasks run and the tasks queued are, as a
multiset, the tasks submitted, so no task runs twice and none is lost while the scheduler
lives.  `owner_drains_own_queue`: with no submission in between, `2k` steps of worker `i`
empty a deque of `k` tasks, whatever the other workers do.  `stopped_scheduler_runs_few_tasks`:
once `running_` is false, the workers run at most one more task each, those that had
passed the test before it; every other queued task is destroyed unrun.
-/

namespace AsyncToolkit
namespace Scheduler
namespace WorkStealing

variable {α : Type}

/-- Where worker thread `i` is in `worker_loop(i)`. -/
inductive Worker
  /-- At the test of `while (running_)`. -/
  | test
  /-- Past the test, in the body of the loop. -/
  | body
  /-- Returned from `worker_loop`. -/
  | returned
  deriving DecidableEq, Repr

/-- Steps a worker still takes, once `running_` is false, before it returns. -/
def Worker.stepsLeft : Worker → Nat
  | .test => 1
  | .body => 2
  | .returned => 0

/-- The scheduler with its threads: the submission state, `running_`, where each worker is,
and the tasks run, in order.  `submitted` records the tasks handed to `submit` and
`submit_batch`. -/
structure Sys (α : Type) where
  sched : Sched α
  running : Bool
  workers : List Worker
  executed : List α
  submitted : List α

namespace Sys

/-- `WorkStealingScheduler(thread_count)`: `thread_count` deques and worker threads, and
`running_(true)`. -/
def init (threadCount : Nat) (slot : Nat → Option Nat) : Sys α :=
  ⟨Sched.construct threadCount slot, true, List.replicate threadCount .test, [], []⟩

/-- Worker `i` moves to `w`, with deque `j` replaced by `f` of it and `run` run. -/
def take (s : Sys α) (i : Nat) (w : Worker) (j : Nat) (f : List α → List α) (run : α) : Sys α :=
  { s with sched := { s.sched with queues := s.sched.queues.modify f j },
           workers := s.workers.set i w, executed := s.executed ++ [run] }

/-- One step of worker `i`, the random draw giving victim `v`: the test of
`while (running_)`, or the rest of an iteration: `try_pop` from its own deque, else
`try_steal` from deque `v` when `v ≠ i`, else the wait on `cv_`. -/
def workerStep (s : Sys α) (i v : Nat) : Sys α :=
  match s.workers[i]? with
  | some .test => { s with workers := s.workers.set i (if s.running then .body else .returned) }
  | some .body =>
    match (s.sched.queues.getD i []).getLast? with
    | some t => s.take i .test i List.dropLast t
    | none =>
      match if v ≠ i then (s.sched.queues.getD v []).head? else none with
      | some t => s.take i .test v List.tail t
      | none => { s with workers := s.workers.set i .test }
  | _ => s

/-- `~WorkStealingScheduler()` up to its joins: `running_ = false; cv_.notify_all();`. -/
def stop (s : Sys α) : Sys α := { s with running := false }

/-- A step of one thread: a submission from thread `th`, a step of worker `i`, or the
destructor's store. -/
inductive Act (α : Type)
  | submit (th : Nat) (t : α)
  | submitBatch (th : Nat) (ts : List α)
  | work (i v : Nat)
  | stop

/-- One step; a submission faults where the code divides by `queues_.size() = 0`. -/
def act (s : Sys α) : Act α → Except Fault (Sys α)
  | .submit th t =>
    (fun sc => { s with sched := sc, submitted := s.submitted ++ [t] }) <$> s.sched.submit th t
  | .submitBatch th ts =>
    (fun sc => { s with sched := sc, submitted := s.submitted ++ ts }) <$> s.sched.submitBatch th ts
  | .work i v => pure (s.workerStep i v)
  | .stop => pure s.stop

/-- Worker steps only, each a worker and its draw. -/
def runWorkers (s : Sys α) (steps : List (Nat × Nat)) : Sys α :=
  steps.foldl (fun s p => s.workerStep p.1 p.2) s

/-- The steps that do not fault, one after another. -/
def runOk (s : Sys α) (acts : List (Act α)) : Sys α :=
  acts.foldl (fun s a => match s.act a with | .ok s' => s' | .error _ => s) s

/-- The states reached from `WorkStealingScheduler(thread_count)`, step after step. -/
inductive Reachable (threadCount : Nat) (slot : Nat → Option Nat) : Sys α → Prop
  | init : Reachable threadCount slot (init threadCount slot)
  | step {s s' : Sys α} {a : Act α} :
      Reachable threadCount slot s → s.act a = .ok s' → Reachable threadCount slot s'

end Sys

/-- A computation that did not fault: its first part did not. -/
theorem exists_of_bind_eq_ok {ε β γ : Type} {x : Except ε β} {f : β → Except ε γ} {c : γ}
    (h : x >>= f = .ok c) : ∃ b, x = .ok b ∧ f b = .ok c := by
  cases x with
  | error e => cases h
  | ok b => exact ⟨b, rfl, h⟩

theorem exists_of_map_eq_ok {ε β γ : Type} {x : Except ε β} {f : β → γ} {c : γ}
    (h : f <$> x = .ok c) : ∃ b, x = .ok b ∧ f b = c := by
  cases x with
  | error e => cases h
  | ok b => cases h; exact ⟨b, rfl, rfl⟩

/-! ## Taking a task from a deque -/

/-- `t` is taken from deque `q`, which `f` leaves: its back, as `try_pop` does, or its front,
as `try_steal` does. -/
def Takes (q : List α) (f : List α → List α) (t : α) : Prop := f q ++ [t] = q ∨ t :: f q = q

namespace Takes

variable {q : List α} {f : List α → List α} {t : α}

theorem perm (h : Takes q f t) : (f q ++ [t]).Perm q := by
  rcases h with h | h
  · exact .of_eq h
  · exact List.perm_append_comm.trans (.of_eq h)

theorem length (h : Takes q f t) : (f q).length + 1 = q.length := by
  simpa using h.perm.length_eq

theorem ne_nil (h : Takes q f t) : q ≠ [] :=
  List.ne_nil_of_length_pos (by have := h.length; omega)

end Takes

theorem lt_length_of_getD_ne_nil {qs : List (List α)} {j : Nat} (h : qs.getD j [] ≠ []) :
    j < qs.length := by
  by_contra hj
  exact h (by simp [List.getElem?_eq_none (Nat.le_of_not_lt hj)])

/-- Replacing deque `j` takes its old tasks out of the whole and puts the new ones in. -/
theorem flatten_modify_perm (f : List α → List α) :
    ∀ (qs : List (List α)) (j : Nat), j < qs.length →
      ((qs.modify f j).flatten ++ qs.getD j []).Perm (qs.flatten ++ f (qs.getD j []))
  | [], _, h => absurd h (Nat.not_lt_zero _)
  | q :: qs, 0, _ => by
    classical
    simp only [List.modify_zero_cons, List.flatten_cons, List.getD_cons_zero]
    exact List.perm_iff_count.2 fun x => by simp only [List.count_append]; omega
  | q :: qs, j + 1, h => by
    simp only [List.modify_succ_cons, List.flatten_cons, List.getD_cons_succ, List.append_assoc]
    exact (flatten_modify_perm f qs j (by simpa using h)).append_left q

/-- Taking `t` from deque `j` takes it out of the tasks queued. -/
theorem flatten_modify_take {qs : List (List α)} {j : Nat} {f : List α → List α} {t : α}
    (h : Takes (qs.getD j []) f t) : ((qs.modify f j).flatten ++ [t]).Perm qs.flatten := by
  have hm := flatten_modify_perm f qs j (lt_length_of_getD_ne_nil h.ne_nil)
  refine (List.perm_append_right_iff (f (qs.getD j []))).1 (List.Perm.trans ?_ hm)
  rw [List.append_assoc]
  exact (List.perm_append_comm.trans h.perm).append_left _

/-- Taking a task from deque `j` shortens it by one and leaves the others. -/
theorem length_getD_modify_take {qs : List (List α)} {j : Nat} {f : List α → List α} {t : α}
    (h : Takes (qs.getD j []) f t) (i : Nat) :
    ((qs.modify f j).getD i []).length + (if j = i then 1 else 0) = (qs.getD i []).length := by
  by_cases hj : j = i
  · subst hj
    simpa [List.getElem?_eq_getElem (lt_length_of_getD_ne_nil h.ne_nil)] using h.length
  · simp [List.getElem?_modify_ne _ _ hj, hj]

/-- `queues_[i].push(task)` adds `task` to the tasks queued. -/
theorem pushAt_flatten {i : Nat} {t : α} {qs qs' : List (List α)} (h : pushAt i t qs = .ok qs') :
    qs'.flatten.Perm (qs.flatten ++ [t]) := by
  unfold pushAt at h
  split at h
  · cases h
    refine (List.perm_append_right_iff _).1 ((flatten_modify_perm (· ++ [t]) qs i ‹_›).trans ?_)
    rw [List.append_assoc]
    exact List.perm_append_comm.append_left _
  · cases h

/-- The inner loop of `submit_batch` moves the tasks it pushes from `rest` into the deques. -/
theorem pushBlock_flatten {current : Nat} :
    ∀ (count : Nat) (rest : List α) (qs : List (List α)) {rest' : List α}
      {qs' : List (List α)}, pushBlock current count rest qs = .ok (rest', qs') →
        rest' = rest.drop count ∧ (qs'.flatten ++ rest').Perm (qs.flatten ++ rest)
  | 0, rest, qs, _, _, h => by cases h; exact ⟨rfl, List.Perm.refl _⟩
  | _ + 1, [], qs, _, _, h => by cases h; exact ⟨rfl, List.Perm.refl _⟩
  | count + 1, t :: rest, qs, _, _, h => by
    obtain ⟨qs1, hp, h⟩ := exists_of_bind_eq_ok h
    obtain ⟨hr, hperm⟩ := pushBlock_flatten count rest qs1 h
    refine ⟨hr, hperm.trans ?_⟩
    simpa using (pushAt_flatten hp).append_right rest

/-- The outer loop of `submit_batch`, from block `i` on, pushes every task left. -/
theorem distribute_flatten {n perQueue : Nat} :
    ∀ (fuel i current : Nat) (rest : List α) (qs : List (List α)) {qs' : List (List α)},
      distribute n perQueue fuel i current rest qs = .ok qs' → i + fuel = n →
        (fuel = 0 → rest = []) → qs'.flatten.Perm (qs.flatten ++ rest)
  | 0, _, _, rest, qs, _, h, _, hr => by cases h; simp [hr rfl]
  | fuel + 1, i, current, rest, qs, _, h, hn, _ => by
    unfold distribute at h
    split at h
    · cases h; simp [List.isEmpty_iff.1 ‹_›]
    · obtain ⟨r, hb, h⟩ := exists_of_bind_eq_ok h
      obtain ⟨c, -, h⟩ := exists_of_bind_eq_ok h
      obtain ⟨hr, hperm⟩ := pushBlock_flatten _ rest qs hb
      refine (distribute_flatten fuel (i + 1) c r.1 r.2 h (by omega) fun h0 => ?_).trans hperm
      rw [hr, if_pos (by omega), List.drop_length]

namespace Sched

theorem getWorkerIndex_queues {s : Sched α} {th : Nat} {r : Nat × Sched α}
    (h : s.getWorkerIndex th = .ok r) : r.2.queues = s.queues := by
  obtain ⟨i, -, rfl⟩ := exists_of_map_eq_ok h
  exact threadLocalIndex_queues s th

/-- `submit(task)` queues `task`. -/
theorem submit_flatten {s s' : Sched α} {th : Nat} {t : α} (h : s.submit th t = .ok s') :
    s'.queues.flatten.Perm (s.queues.flatten ++ [t]) := by
  obtain ⟨r, hr, h⟩ := exists_of_bind_eq_ok h
  obtain ⟨qs, hp, rfl⟩ := exists_of_map_eq_ok h
  rw [← getWorkerIndex_queues hr]
  exact pushAt_flatten hp

/-- `submit_batch(begin, end)` queues the whole batch. -/
theorem submitBatch_flatten {s s' : Sched α} {th : Nat} {ts : List α}
    (h : s.submitBatch th ts = .ok s') : s'.queues.flatten.Perm (s.queues.flatten ++ ts) := by
  obtain ⟨r, hr, h⟩ := exists_of_bind_eq_ok h
  obtain ⟨q, hq, h⟩ := exists_of_bind_eq_ok h
  obtain ⟨qs, hd, rfl⟩ := exists_of_map_eq_ok h
  have hn : r.2.queues.length ≠ 0 := fun h0 => by rw [h0, udiv_zero] at hq; cases hq
  rw [← getWorkerIndex_queues hr]
  exact distribute_flatten _ 0 _ ts _ hd (by omega) fun h0 => absurd h0 hn

end Sched

/-! ## One step of a worker -/

namespace Sys

variable {s : Sys α} {i v : Nat}

@[simp] theorem take_running (s : Sys α) (i : Nat) (w : Worker) (j : Nat) (f : List α → List α)
    (t : α) : (s.take i w j f t).running = s.running := rfl

@[simp] theorem take_submitted (s : Sys α) (i : Nat) (w : Worker) (j : Nat)
    (f : List α → List α) (t : α) : (s.take i w j f t).submitted = s.submitted := rfl

@[simp] theorem take_workers (s : Sys α) (i : Nat) (w : Worker) (j : Nat) (f : List α → List α)
    (t : α) : (s.take i w j f t).workers = s.workers.set i w := rfl

@[simp] theorem take_executed (s : Sys α) (i : Nat) (w : Worker) (j : Nat)
    (f : List α → List α) (t : α) : (s.take i w j f t).executed = s.executed ++ [t] := rfl

@[simp] theorem take_queues (s : Sys α) (i : Nat) (w : Worker) (j : Nat) (f : List α → List α)
    (t : α) : (s.take i w j f t).sched.queues = s.sched.queues.modify f j := rfl

/-- What one step of worker `i` can do: leave the test of `while (running_)`, take a task
(the back of its own deque, or, that one empty, the front of victim `v`'s) and run it, wait,
or nothing once returned. -/
theorem workerStep_cases (s : Sys α) (i v : Nat) :
    (s.workers[i]? = some .test ∧ s.workerStep i v =
      { s with workers := s.workers.set i (if s.running then .body else .returned) }) ∨
    (s.workers[i]? = some .body ∧ ∃ j f t, Takes (s.sched.queues.getD j []) f t ∧
      (j = i ∨ s.sched.queues.getD i [] = []) ∧ s.workerStep i v = s.take i .test j f t) ∨
    (s.workers[i]? = some .body ∧ s.sched.queues.getD i [] = [] ∧
      s.workerStep i v = { s with workers := s.workers.set i .test }) ∨
    (s.workers[i]? ≠ some .test ∧ s.workers[i]? ≠ some .body ∧ s.workerStep i v = s) := by
  unfold workerStep
  split
  · exact .inl ⟨‹_›, rfl⟩
  · rename_i hw
    split
    · rename_i t ht
      exact .inr (.inl ⟨hw, i, List.dropLast, t, .inl (List.dropLast_append_getLast? t ht),
        .inl rfl, rfl⟩)
    · have he : s.sched.queues.getD i [] = [] := List.getLast?_eq_none_iff.1 ‹_›
      split
      · rename_i t ht
        split at ht
        · exact .inr (.inl ⟨hw, v, List.tail, t, .inr (List.eq_cons_of_mem_head? ht).symm,
            .inr he, rfl⟩)
        · cases ht
      · exact .inr (.inr (.inl ⟨hw, he, rfl⟩))
  · exact .inr (.inr (.inr ⟨‹_›, ‹_›, rfl⟩))

/-- A step of worker `i` leaves `running_` alone. -/
@[simp] theorem workerStep_running (s : Sys α) (i v : Nat) :
    (s.workerStep i v).running = s.running := by
  rcases workerStep_cases s i v with ⟨-, h⟩ | ⟨-, j, f, t, -, -, h⟩ | ⟨-, -, h⟩ | ⟨-, -, h⟩ <;>
    simp [h]

@[simp] theorem workerStep_submitted (s : Sys α) (i v : Nat) :
    (s.workerStep i v).submitted = s.submitted := by
  rcases workerStep_cases s i v with ⟨-, h⟩ | ⟨-, j, f, t, -, -, h⟩ | ⟨-, -, h⟩ | ⟨-, -, h⟩ <;>
    simp [h]

@[simp] theorem workerStep_workers_length (s : Sys α) (i v : Nat) :
    (s.workerStep i v).workers.length = s.workers.length := by
  rcases workerStep_cases s i v with ⟨-, h⟩ | ⟨-, j, f, t, -, -, h⟩ | ⟨-, -, h⟩ | ⟨-, -, h⟩ <;>
    simp [h]

/-- A step of worker `i` leaves every other worker where it is. -/
theorem workerStep_workers_of_ne (s : Sys α) (v : Nat) {i k : Nat} (hk : i ≠ k) :
    (s.workerStep i v).workers[k]? = s.workers[k]? := by
  rcases workerStep_cases s i v with ⟨-, h⟩ | ⟨-, j, f, t, -, -, h⟩ | ⟨-, -, h⟩ | ⟨-, -, h⟩ <;>
    simp [h, List.getElem?_set_ne hk]

/-- No worker step makes a deque longer: only submissions push. -/
theorem workerStep_queue_length_le (s : Sys α) (i v k : Nat) :
    ((s.workerStep i v).sched.queues.getD k []).length ≤ (s.sched.queues.getD k []).length := by
  rcases workerStep_cases s i v with ⟨-, h⟩ | ⟨-, j, f, t, ht, -, h⟩ | ⟨-, -, h⟩ | ⟨-, -, h⟩ <;>
    rw [h]
  have := length_getD_modify_take ht k
  rw [take_queues]
  omega

/-- A step of a worker moves the task it takes from the deques to the tasks run. -/
theorem workerStep_perm (s : Sys α) (i v : Nat) :
    ((s.workerStep i v).executed ++ (s.workerStep i v).sched.queues.flatten).Perm
      (s.executed ++ s.sched.queues.flatten) := by
  rcases workerStep_cases s i v with ⟨-, h⟩ | ⟨-, j, f, t, ht, -, h⟩ | ⟨-, -, h⟩ | ⟨-, -, h⟩ <;>
    rw [h]
  simp only [take_executed, take_queues, List.append_assoc]
  exact (List.perm_append_comm.trans (flatten_modify_take ht)).append_left _

/-! ## The invariant -/

/-- What holds in every state reached: the tasks run and queued are the tasks submitted, one
worker per thread, and a worker returns only once `running_` is false. -/
structure Inv (n : Nat) (s : Sys α) : Prop where
  conserve : (s.executed ++ s.sched.queues.flatten).Perm s.submitted
  workers_length : s.workers.length = n
  returned : Worker.returned ∈ s.workers → s.running = false

theorem inv_init (n : Nat) (slot : Nat → Option Nat) : Inv n (init (α := α) n slot) where
  conserve := by simp [init, Sched.construct]
  workers_length := List.length_replicate _ _
  returned h := absurd (List.eq_of_mem_replicate h) (by decide)

theorem returned_mem_set {ws : List Worker} {i : Nat} {w : Worker} (hw : w ≠ .returned)
    (h : Worker.returned ∈ ws.set i w) : Worker.returned ∈ ws :=
  (List.mem_or_eq_of_mem_set h).resolve_right (Ne.symm hw)

theorem Inv.workerStep {n : Nat} (h : Inv n s) (i v : Nat) : Inv n (s.workerStep i v) := by
  refine ⟨by rw [workerStep_submitted]; exact (workerStep_perm s i v).trans h.conserve,
    by simp [h.workers_length], fun hr => ?_⟩
  rw [workerStep_running]
  rcases workerStep_cases s i v with ⟨-, hs⟩ | ⟨-, j, f, t, -, -, hs⟩ | ⟨-, -, hs⟩ | ⟨-, -, hs⟩ <;>
    rw [hs] at hr
  · rcases List.mem_or_eq_of_mem_set hr with hr | hr
    · exact h.returned hr
    · exact Bool.eq_false_iff.2 fun hb => by simp [hb] at hr
  · exact h.returned (returned_mem_set (by decide) hr)
  · exact h.returned (returned_mem_set (by decide) hr)
  · exact h.returned hr

theorem Inv.act {n : Nat} (h : Inv n s) {a : Act α} {s' : Sys α} (ha : s.act a = .ok s') :
    Inv n s' := by
  cases a with
  | submit th t =>
    obtain ⟨sc, hsc, rfl⟩ := exists_of_map_eq_ok ha
    refine { h with conserve := ((Sched.submit_flatten hsc).append_left _).trans ?_ }
    rw [← List.append_assoc]
    exact h.conserve.append_right _
  | submitBatch th ts =>
    obtain ⟨sc, hsc, rfl⟩ := exists_of_map_eq_ok ha
    refine { h with conserve := ((Sched.submitBatch_flatten hsc).append_left _).trans ?_ }
    rw [← List.append_assoc]
    exact h.conserve.append_right _
  | work i v => cases ha; exact h.workerStep i v
  | stop => cases ha; exact ⟨h.conserve, h.workers_length, fun _ => rfl⟩

theorem Reachable.inv {n : Nat} {slot : Nat → Option Nat} (h : Reachable n slot s) : Inv n s := by
  induction h with
  | init => exact inv_init _ _
  | step _ ha ih => exact ih.act ha

theorem Reachable.runOk {n : Nat} {slot : Nat → Option Nat} (h : Reachable n slot s)
    (acts : List (Act α)) : Reachable n slot (s.runOk acts) := by
  induction acts generalizing s with
  | nil => exact h
  | cons a acts ih =>
    have h' : Reachable n slot (match s.act a with | .ok s' => s' | .error _ => s) := by
      split
      · exact .step h ‹_›
      · exact h
    exact ih h'

/-- Along every run, whatever the interleaving of submissions, pops, steals and the
destructor's store: the tasks run and the tasks still queued are, as a multiset, the tasks
submitted.  No task is lost and none runs twice. -/
theorem work_stealing_conserves_tasks {n : Nat} {slot : Nat → Option Nat}
    (h : Reachable n slot s) : (s.executed ++ s.sched.queues.flatten).Perm s.submitted :=
  h.inv.conserve

/-- Two workers; thread 0 submits task 1 and thread 1 the batch `2, 3, 4`, of which deque 1
gets `2` and deque 0 gets `3, 4` after `1`. -/
def twoSubmitted : Sys Nat :=
  (init 2 fun _ => none).runOk [.submit 0 1, .submitBatch 1 [2, 3, 4]]

/-- Worker 1 runs its own task 2, then steals task 1 from the front of deque 0. -/
def stealRun : Sys Nat := twoSubmitted.runOk [.work 1 0, .work 1 0, .work 1 0, .work 1 0]

theorem work_stealing_conserves_tasks_steal :
    Reachable 2 (fun _ => none) stealRun ∧
      (stealRun.executed ++ stealRun.sched.queues.flatten).Perm stealRun.submitted :=
  have h : Reachable 2 (fun _ => none) stealRun := (Reachable.runOk .init _).runOk _
  ⟨h, work_stealing_conserves_tasks h⟩

example : stealRun.executed = [2, 1] ∧ stealRun.sched.queues = [[3, 4], []] := by decide

/-! ## A worker drains its own deque -/

@[simp] theorem runWorkers_nil (s : Sys α) : s.runWorkers [] = s := rfl

@[simp] theorem runWorkers_cons (s : Sys α) (i v : Nat) (steps : List (Nat × Nat)) :
    s.runWorkers ((i, v) :: steps) = (s.workerStep i v).runWorkers steps := rfl

/-- Worker `i` of a running scheduler with `c` of its steps to come: enough to empty its
deque, two per task, one less once it is past the test. -/
structure Drains (i c : Nat) (s : Sys α) : Prop where
  running : s.running = true
  worker : s.workers[i]? = some .test ∨ s.workers[i]? = some .body
  budget : 2 * (s.sched.queues.getD i []).length ≤ c + if s.workers[i]? = some .body then 1 else 0

theorem Drains.workerStep {i c k : Nat} (h : Drains i (c + if k = i then 1 else 0) s) (v : Nat) :
    Drains i c (s.workerStep k v) := by
  have hb := h.budget
  by_cases hk : k = i
  · subst hk
    rcases workerStep_cases s k v with ⟨hw, hs⟩ | ⟨hw, j, f, t, ht, hj, hs⟩ | ⟨hw, he, hs⟩ |
      ⟨hw, hw', -⟩
    · have hl := (List.getElem?_eq_some_iff.1 hw).1
      rw [hs]
      refine ⟨h.running, .inr (by simp [h.running, hl]), ?_⟩
      simpa [hw, hl, h.running] using hb
    · have hl := (List.getElem?_eq_some_iff.1 hw).1
      have hq := length_getD_modify_take ht k
      have hw' : (s.workers.set k .test)[k]? ≠ some .body := by simp [hl]
      rw [hs]
      refine ⟨h.running, .inl (by simp [hl]), ?_⟩
      rw [take_workers, take_queues, if_neg hw']
      rw [if_pos rfl, if_pos hw] at hb
      rcases hj with rfl | he
      · rw [if_pos rfl] at hq
        omega
      · rw [he, List.length_nil] at hq
        omega
    · have hl := (List.getElem?_eq_some_iff.1 hw).1
      rw [hs]
      refine ⟨h.running, .inl (by simp [hl]), ?_⟩
      simp only [he, List.length_nil, Nat.mul_zero, Nat.zero_le]
    · exact h.worker.elim (absurd · hw) (absurd · hw')
  · have hq := workerStep_queue_length_le s k v i
    refine ⟨by simp [h.running], ?_, ?_⟩ <;> rw [workerStep_workers_of_ne s v hk]
    · exact h.worker
    · rw [if_neg hk, Nat.add_zero] at hb
      omega

theorem Drains.runWorkers {i : Nat} :
    ∀ (steps : List (Nat × Nat)) (s : Sys α), Drains i (steps.countP (·.1 = i)) s →
      Drains i 0 (s.runWorkers steps)
  | [], _, h => h
  | (k, v) :: steps, s, h => by
    simp only [List.countP_cons, decide_eq_true_eq] at h
    exact Drains.runWorkers steps _ (h.workerStep v)

theorem Drains.queue_eq_nil {i : Nat} (h : Drains i 0 s) : s.sched.queues.getD i [] = [] :=
  List.length_eq_zero.1 (by have := h.budget; split at this <;> omega)

/-- In every state reached while the scheduler runs, `2k` steps of worker `i` empty its deque
of `k` tasks, whatever the other workers do between them and whichever victims it draws:
its own deque comes first, and no worker step pushes. -/
theorem owner_drains_own_queue {n : Nat} {slot : Nat → Option Nat} {i : Nat}
    (h : Reachable n slot s) (hr : s.running = true) (hi : i < n) (steps : List (Nat × Nat))
    (hk : 2 * (s.sched.queues.getD i []).length ≤ steps.countP (·.1 = i)) :
    (s.runWorkers steps).sched.queues.getD i [] = [] := by
  have hinv := h.inv
  have hw : s.workers[i]? = some .test ∨ s.workers[i]? = some .body := by
    have hl : i < s.workers.length := hinv.workers_length ▸ hi
    cases hw : s.workers[i] with
    | test => exact .inl (by simp [hl, hw])
    | body => exact .inr (by simp [hl, hw])
    | returned =>
      have := hinv.returned (hw ▸ List.getElem_mem hl)
      simp [hr] at this
  exact (Drains.runWorkers steps s ⟨hr, hw, Nat.le_add_right_of_le hk⟩).queue_eq_nil

/-- Six steps of worker 0 among three of worker 1, which draws victims 0 and 1. -/
def drainSteps : List (Nat × Nat) :=
  [(0, 0), (1, 0), (0, 1), (1, 0), (0, 0), (1, 0), (0, 0), (0, 0), (0, 0)]

theorem owner_drains_own_queue_interleaved :
    Reachable 2 (fun _ => none) twoSubmitted ∧ twoSubmitted.running = true ∧ 0 < 2 ∧
      2 * (twoSubmitted.sched.queues.getD 0 []).length ≤ drainSteps.countP (·.1 = 0) ∧
      (twoSubmitted.runWorkers drainSteps).sched.queues.getD 0 [] = [] :=
  have h : Reachable 2 (fun _ => none) twoSubmitted := .runOk .init _
  ⟨h, rfl, by decide, by decide, owner_drains_own_queue h rfl (by decide) drainSteps (by decide)⟩

/-! ## After the store of `running_ = false` -/

theorem count_set_of_getElem? {ws : List Worker} {i : Nat} {w : Worker} (h : ws[i]? = some w)
    (w' b : Worker) :
    (ws.set i w').count b + (if w = b then 1 else 0) = ws.count b + (if w' = b then 1 else 0) := by
  obtain ⟨hi, rfl⟩ := List.getElem?_eq_some_iff.1 h
  have hle : (if ws[i] = b then 1 else 0) ≤ ws.count b := by
    split
    · exact List.count_pos_iff.2 (‹ws[i] = b› ▸ List.getElem_mem hi)
    · exact Nat.zero_le _
  rw [List.count_set _ _ _ _ hi]
  simp only [beq_iff_eq]
  omega

/-- Step lemma once `running_` is false: a worker past the test ends its iteration, running
at most the one task it takes; a worker at the test returns. -/
theorem workerStep_of_stopped (hr : s.running = false) (i v : Nat) :
    ∃ extra : List α, (s.workerStep i v).executed = s.executed ++ extra ∧
      extra.length + (s.workerStep i v).workers.count .body ≤ s.workers.count .body := by
  rcases workerStep_cases s i v with ⟨hw, hs⟩ | ⟨hw, j, f, t, -, -, hs⟩ | ⟨hw, -, hs⟩ |
    ⟨-, -, hs⟩ <;> rw [hs]
  · have := count_set_of_getElem? hw .returned .body
    refine ⟨[], by simp, ?_⟩
    simp [hr]
    simp at this
    omega
  · have := count_set_of_getElem? hw .test .body
    refine ⟨[t], rfl, ?_⟩
    simp at this ⊢
    omega
  · have := count_set_of_getElem? hw .test .body
    refine ⟨[], by simp, ?_⟩
    simp at this ⊢
    omega
  · exact ⟨[], by simp, by simp⟩

theorem runWorkers_perm :
    ∀ (steps : List (Nat × Nat)) (s : Sys α),
      ((s.runWorkers steps).executed ++ (s.runWorkers steps).sched.queues.flatten).Perm
        (s.executed ++ s.sched.queues.flatten)
  | [], _ => List.Perm.refl _
  | (i, v) :: steps, s => (runWorkers_perm steps _).trans (workerStep_perm s i v)

theorem runWorkers_of_stopped :
    ∀ (steps : List (Nat × Nat)) (s : Sys α), s.running = false →
      ∃ extra : List α, (s.runWorkers steps).executed = s.executed ++ extra ∧
        extra.length + (s.runWorkers steps).workers.count .body ≤ s.workers.count .body
  | [], _, _ => ⟨[], by simp, by simp⟩
  | (i, v) :: steps, s, hr => by
    obtain ⟨e1, h1, c1⟩ := workerStep_of_stopped hr i v
    obtain ⟨e2, h2, c2⟩ := runWorkers_of_stopped steps (s.workerStep i v) (by simp [hr])
    refine ⟨e1 ++ e2, by rw [runWorkers_cons, h2, h1, List.append_assoc], ?_⟩
    rw [runWorkers_cons, List.length_append]
    omega

/-- Once `running_` is false, the workers run at most one more task each, and only those that
had passed the test of `while (running_)`: the tasks run are taken from the deques, and every
other task queued stays there, to be destroyed with `queues_` unrun. -/
theorem stopped_scheduler_runs_few_tasks (s : Sys α) (hr : s.running = false)
    (steps : List (Nat × Nat)) :
    ∃ extra : List α, (s.runWorkers steps).executed = s.executed ++ extra ∧
      extra.length ≤ s.workers.count .body ∧
      (extra ++ (s.runWorkers steps).sched.queues.flatten).Perm s.sched.queues.flatten := by
  obtain ⟨extra, he, hc⟩ := runWorkers_of_stopped steps s hr
  refine ⟨extra, he, by omega, ?_⟩
  have hp := runWorkers_perm steps s
  rw [he, List.append_assoc] at hp
  exact (List.perm_append_left_iff _).1 hp

/-- Worker 0 passes the test of `while (running_)`, then the destructor stores
`running_ = false`. -/
def stoppedInBody : Sys Nat := twoSubmitted.runOk [.work 0 0, .stop]

theorem stopped_scheduler_runs_few_tasks_body :
    stoppedInBody.running = false ∧ ∃ extra : List Nat,
      (stoppedInBody.runWorkers [(0, 0), (1, 0), (0, 0)]).executed =
        stoppedInBody.executed ++ extra ∧
      extra.length ≤ stoppedInBody.workers.count .body ∧
      (extra ++ (stoppedInBody.runWorkers [(0, 0), (1, 0), (0, 0)]).sched.queues.flatten).Perm
        stoppedInBody.sched.queues.flatten :=
  ⟨rfl, stopped_scheduler_runs_few_tasks stoppedInBody rfl _⟩

/-- Worker 0 runs task 4 after the store; tasks 1, 3 and 2 stay queued. -/
example : (stoppedInBody.runWorkers [(0, 0), (1, 0), (0, 0)]).executed = [4] ∧
    (stoppedInBody.runWorkers [(0, 0), (1, 0), (0, 0)]).sched.queues = [[1, 3], [2]] := by
  decide

/-- Step lemma once `running_` is false: a step of a worker brings it one step nearer to
returning. -/
theorem workerStep_self_of_stopped (hr : s.running = false) {w : Worker}
    (hw : s.workers[i]? = some w) (v : Nat) :
    ∃ w', (s.workerStep i v).workers[i]? = some w' ∧ w'.stepsLeft = w.stepsLeft - 1 := by
  have hl := (List.getElem?_eq_some_iff.1 hw).1
  rcases workerStep_cases s i v with ⟨hw1, hs⟩ | ⟨hw1, j, f, t, -, -, hs⟩ | ⟨hw1, -, hs⟩ |
    ⟨hw1, hw2, hs⟩ <;> rw [hs] <;> rw [hw] at hw1
  · cases hw1
    exact ⟨.returned, by simp [hl, hr], rfl⟩
  · cases hw1
    exact ⟨.test, by simp [hl], rfl⟩
  · cases hw1
    exact ⟨.test, by simp [hl], rfl⟩
  · rw [hw] at hw2
    cases w
    · exact absurd rfl hw1
    · exact absurd rfl hw2
    · exact ⟨.returned, hw, rfl⟩

theorem runWorkers_returned_of_stopped {i : Nat} :
    ∀ (steps : List (Nat × Nat)) (s : Sys α) (w : Worker), s.running = false →
      s.workers[i]? = some w → w.stepsLeft ≤ steps.countP (·.1 = i) →
        (s.runWorkers steps).workers[i]? = some .returned
  | [], s, w, _, hw, hc => by cases w <;> simp_all [Worker.stepsLeft]
  | (k, v) :: steps, s, w, hr, hw, hc => by
    simp only [List.countP_cons, decide_eq_true_eq] at hc
    by_cases hk : k = i
    · subst hk
      obtain ⟨w', hw', hs⟩ := workerStep_self_of_stopped hr hw v
      exact runWorkers_returned_of_stopped steps _ w' (by simp [hr]) hw' (by simp at hc; omega)
    · exact runWorkers_returned_of_stopped steps _ w (by simp [hr])
        (by rw [workerStep_workers_of_ne s v hk]; exact hw) (by simpa [hk] using hc)

/-- The destructor's joins return: once `running_` is false, two steps of a worker, whatever
the others do, and its thread has left `worker_loop`. -/
theorem stopped_workers_return (s : Sys α) (hr : s.running = false) {i : Nat}
    (hi : i < s.workers.length) (steps : List (Nat × Nat)) (h2 : 2 ≤ steps.countP (·.1 = i)) :
    (s.runWorkers steps).workers[i]? = some .returned := by
  refine runWorkers_returned_of_stopped steps s s.workers[i] hr (by simp [hi]) ?_
  have : s.workers[i].stepsLeft ≤ 2 := by cases s.workers[i] <;> decide
  omega

theorem stopped_workers_return_one :
    stoppedInBody.running = false ∧ 1 < stoppedInBody.workers.length ∧
      2 ≤ [(0, 0), (1, 0), (1, 1)].countP (·.1 = 1) ∧
      (stoppedInBody.runWorkers [(0, 0), (1, 0), (1, 1)]).workers[1]? = some .returned :=
  ⟨rfl, by decide, by decide, stopped_workers_return stoppedInBody rfl (by decide) _ (by decide)⟩

end Sys

end WorkStealing
end Scheduler
end AsyncToolkit
