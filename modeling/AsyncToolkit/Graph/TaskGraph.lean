import AsyncToolkit.Coroutine.TaskPool
import Mathlib.Data.List.Perm.Subperm

/-!
# async_toolkit: the task graph

This module models `graph::TaskGraph<T>` of `include/async_toolkit/graph/task_graph.hpp`:
the graph built by `add_task` and `add_dependency`, and `execute(pool)` running in its
thread beside the workers of the `TaskPool` it submits to.  The header includes
`../task_pool.hpp`, which is not at that path; the pool is the repository's one `TaskPool`,
of `coroutine/task_pool.hpp`, modelled in `AsyncToolkit.Coroutine.TaskPool`.

**Graph.**  A node is its index in `nodes_`; `dependencies_` of a node are indices, past
`nodes_` for a node of another graph, whose flag this `execute` never sets.  `executed_`
of a node is set by its task when a pool worker runs it, so the flag is read off the run:
set before `execute` began, or set by a submitted task the pool has finished.  `executed_`
is a plain `bool` that the thread in `execute` reads while a worker writes it; the model
reads it as if it were atomic.

**Steps.**  One step of `execute` is one test of its `while`, one iteration of its `for`
(the test `completed.count(node) == 0 && node->can_execute()` and, when it holds, the
`pool.submit` and the insertion into `completed`), or one `future.get()`, which blocks
until the pool has run that task.  Between any two of them the pool takes any of its
actions (`TaskPool.act`).  The flags only go from unset to set, so the reads of
`can_execute` may be taken together.

**Results.**  `Inv` and `RanFirst` hold along every run of `execute`.
`execute_submits_in_dependency_order`: the nodes are submitted at most once each, none
whose `executed_` was already set, each after its dependencies; the task of each node runs
after the tasks of its dependencies; when `execute` returns it has submitted every node
and every task has run.  `execute_never_returns_of_cycle`: nodes that each depend on
another of them are never submitted, so `execute` never leaves its `while`.
`second_execute_never_returns`: once `execute` has returned, a second `execute` of the
same graph never returns.
-/

namespace AsyncToolkit
namespace Graph

/-- A `TaskGraph<T>` as `execute` finds it: the dependencies of each node of `nodes_`, in
order, and the nodes whose `executed_` is set. -/
structure TaskGraph where
  deps : List (List Nat)
  executed : Nat → Bool

namespace TaskGraph

/-- `make_task_graph<T>()`. -/
def empty : TaskGraph := ⟨[], fun _ => false⟩

/-- `add_task(task)`: a node with no dependency, not executed; it is node `g.deps.length`. -/
def addTask (g : TaskGraph) : TaskGraph := { g with deps := g.deps ++ [[]] }

/-- `add_dependency(dependent, dependency)`: `dependent->dependencies_.push_back(dependency)`. -/
def addDependency (g : TaskGraph) (dependent dependency : Nat) : TaskGraph :=
  { g with deps := g.deps.modify (· ++ [dependency]) dependent }

/-- `dependencies_` of node `n`. -/
def depsOf (g : TaskGraph) (n : Nat) : List Nat := g.deps.getD n []

/-- A list of nodes in which the dependencies of each node were executed before, or come
earlier in the list. -/
inductive DependencyOrder (g : TaskGraph) : List Nat → Prop
  | nil : DependencyOrder g []
  | snoc {l : List Nat} {n : Nat} : DependencyOrder g l →
      (∀ d ∈ g.depsOf n, g.executed d = true ∨ d ∈ l) → DependencyOrder g (l ++ [n])

end TaskGraph

/-- The position of the thread in `execute(pool)`. -/
inductive Pc
  /-- At `while (completed.size() < nodes_.size())`. -/
  | loop
  /-- In the `for` loop, at node `i` of `nodes_`. -/
  | scan (i : Nat)
  /-- At `futures[k].get()`. -/
  | collect (k : Nat)
  /-- `execute` returned `results`. -/
  | returned
  /-- `pool.submit` threw: the pool was stopping. -/
  | threw
  deriving DecidableEq, Repr

/-- `execute` in progress: the pool, the position, and `futures`, which holds for each
submitted node, in order, its task in the pool and the node. -/
structure Exec where
  pool : TaskPool
  pc : Pc
  futures : List (Nat × Nat)
  deriving DecidableEq, Repr

namespace Exec

variable (g : TaskGraph)

/-- `completed`: the nodes submitted. -/
def completed (r : Exec) : List Nat := r.futures.map Prod.snd

/-- `node->is_executed()`: set before `execute`, or by the node's task once the pool ran
it. -/
def isExecuted (r : Exec) (n : Nat) : Bool :=
  g.executed n || r.futures.any fun f => f.2 == n && f.1 ∈ r.pool.executed

/-- `node->can_execute()`: every dependency executed, and the node not. -/
def canExecute (r : Exec) (n : Nat) : Bool :=
  (g.depsOf n).all (r.isExecuted g) && !r.isExecuted g n

/-- The graph as a run of `execute` leaves it: the same nodes, with `executed_` set on
those whose task has run. -/
def graph (r : Exec) : TaskGraph := ⟨g.deps, r.isExecuted g⟩

/-- One step of the thread in `execute`.  `futures[k].get()` waits until the pool has run
task `k`; the results are the nodes' results in the order of `futures`. -/
def step (r : Exec) : Exec :=
  match r.pc with
  | .loop =>
    if r.completed.length < g.deps.length then { r with pc := .scan 0 }
    else { r with pc := .collect 0 }
  | .scan i =>
    if i < g.deps.length then
      if i ∉ r.completed ∧ r.canExecute g i = true then
        if r.pool.stop then { r with pool := r.pool.submit, pc := .threw }
        else
          { r with pool := r.pool.submit, futures := r.futures ++ [(r.pool.accepted, i)],
                   pc := .scan (i + 1) }
      else { r with pc := .scan (i + 1) }
    else { r with pc := .loop }
  | .collect k =>
    match r.futures[k]? with
    | some f => if f.1 ∈ r.pool.executed then { r with pc := .collect (k + 1) } else r
    | none => { r with pc := .returned }
  | .returned => r
  | .threw => r

/-- An action: the thread in `execute` takes a step, or the pool takes one of its actions
(a worker step, a wake-up, a `submit` of another thread, or its destructor). -/
inductive Act
  | execute
  | pool (a : TaskPool.Act)
  deriving DecidableEq, Repr

/-- One action. -/
def act (r : Exec) : Act → Exec
  | .execute => r.step g
  | .pool a => { r with pool := r.pool.act a }

/-- A finite schedule. -/
def run (r : Exec) (acts : List Act) : Exec := acts.foldl (act g) r

/-- `execute(pool)` just called on a pool with `n` workers. -/
def start (pool : TaskPool) : Exec := ⟨pool, .loop, []⟩

/-- The states of `execute(pool)` over a reachable pool with `n` workers. -/
inductive Reachable (n : Nat) : Exec → Prop
  | start {pool : TaskPool} : TaskPool.Reachable n pool → Reachable n (start pool)
  | step {r : Exec} : Reachable n r → (a : Act) → Reachable n (r.act g a)

theorem reachable_run {n : Nat} {pool : TaskPool} (hp : TaskPool.Reachable n pool)
    (acts : List Act) : Reachable g n (run g (start pool) acts) := by
  suffices ∀ r, Reachable g n r → Reachable g n (run g r acts) from this _ (.start hp)
  induction acts with
  | nil => exact fun _ h => h
  | cons a acts ih => exact fun r h => ih _ (h.step a)

/-! ## The invariant -/

/-- What holds along every run of `execute`. -/
structure Inv (r : Exec) : Prop where
  nodup : r.completed.Nodup
  bound : ∀ n ∈ r.completed, n < g.deps.length
  fresh : ∀ n ∈ r.completed, g.executed n = false
  order : g.DependencyOrder r.completed
  /-- The `while` is left only with every node submitted. -/
  left : ∀ k, r.pc = .collect k ∨ r.pc = .returned → g.deps.length ≤ r.completed.length
  got : ∀ k, r.pc = .collect k → ∀ f ∈ r.futures.take k, f.1 ∈ r.pool.executed
  done : r.pc = .returned → ∀ f ∈ r.futures, f.1 ∈ r.pool.executed

theorem mem_completed_of_isExecuted {r : Exec} {d : Nat} (h : r.isExecuted g d = true) :
    g.executed d = true ∨ d ∈ r.completed := by
  simp only [isExecuted, Bool.or_eq_true, List.any_eq_true, Bool.and_eq_true, beq_iff_eq,
    decide_eq_true_eq] at h
  rcases h with h | ⟨f, hf, rfl, -⟩
  · exact .inl h
  · exact .inr (List.mem_map_of_mem _ hf)

@[simp] theorem completed_append (r : Exec) (f : Nat × Nat) (pc : Pc) (pool : TaskPool) :
    completed { r with pool := pool, futures := r.futures ++ [f], pc := pc } =
      r.completed ++ [f.2] := by
  simp [completed]

variable {g}

theorem Inv.pool {r : Exec} (h : Inv g r) (a : TaskPool.Act) :
    Inv g { r with pool := r.pool.act a } where
  nodup := h.nodup
  bound := h.bound
  fresh := h.fresh
  order := h.order
  left := h.left
  got k hk f hf := (r.pool.act_executed_prefix a).subset (h.got k hk f hf)
  done hr f hf := (r.pool.act_executed_prefix a).subset (h.done hr f hf)

/-- The only step that changes `futures` submits node `i`, which the test found not
submitted and ready. -/
theorem Inv.submit {r : Exec} (h : Inv g r) {i : Nat} (hi : i < g.deps.length)
    (hc : i ∉ r.completed) (he : r.canExecute g i = true) :
    Inv g { r with
      pool := r.pool.submit, futures := r.futures ++ [(r.pool.accepted, i)], pc := .scan (i + 1) } := by
  simp only [canExecute, Bool.and_eq_true, List.all_eq_true, Bool.not_eq_true'] at he
  have hfresh : g.executed i = false := by
    simp only [isExecuted, Bool.or_eq_false_iff] at he
    exact he.2.1
  refine ⟨?_, ?_, ?_, ?_, by simp, by simp, by simp⟩ <;> rw [completed_append]
  · exact (List.perm_append_singleton _ _).nodup_iff.2 (List.nodup_cons.2 ⟨hc, h.nodup⟩)
  · simpa [or_imp, forall_and] using ⟨h.bound, hi⟩
  · simpa [or_imp, forall_and] using ⟨h.fresh, hfresh⟩
  · exact h.order.snoc fun d hd => mem_completed_of_isExecuted g (he.1 d hd)

theorem Inv.step {r : Exec} (h : Inv g r) : Inv g (r.step g) := by
  unfold Exec.step
  split
  · split
    · exact { h with left := by simp, got := by simp, done := by simp }
    · rename_i hlt
      exact { h with left := fun _ _ => Nat.le_of_not_lt hlt, got := by simp, done := by simp }
  · -- one iteration of the `for`: the submission, or `futures` left alone
    repeat' split
    all_goals first
      | exact h.submit ‹_› (‹_ ∧ _›).1 (‹_ ∧ _›).2
      | exact { h with left := by simp, got := by simp, done := by simp }
  · rename_i k hpc
    split
    · rename_i f hf
      split
      · rename_i hex
        refine { h with
          left := fun _ _ => h.left k (.inl hpc), got := fun k' hk' f' hf' => ?_, done := by simp }
        cases hk'
        rw [List.take_succ, hf] at hf'
        rcases List.mem_append.1 hf' with hf' | hf'
        · exact h.got k hpc f' hf'
        · rw [Option.mem_toList, Option.mem_def, Option.some.injEq] at hf'
          exact hf' ▸ hex
      · exact h
    · rename_i hnone
      refine { h with
        left := fun _ _ => h.left k (.inl hpc), got := by simp, done := fun _ => ?_ }
      have hk : r.futures.length ≤ k := List.getElem?_eq_none_iff.1 hnone
      simpa [List.take_of_length_le hk] using h.got k hpc
  · exact h
  · exact h

theorem Inv.act {r : Exec} (h : Inv g r) (a : Act) : Inv g (r.act g a) := by
  cases a with
  | execute => exact h.step
  | pool a => exact h.pool a

theorem inv_start (pool : TaskPool) : Inv g (start pool) where
  nodup := List.nodup_nil
  bound := by simp [start, completed]
  fresh := by simp [start, completed]
  order := .nil
  left := by simp [start]
  got := by simp [start]
  done := by simp [start]

theorem Reachable.inv {n : Nat} {r : Exec} (h : Reachable g n r) : Inv g r := by
  induction h with
  | start => exact inv_start _
  | step _ a ih => exact ih.act a

/-- Submitted nodes are distinct nodes of the graph, so with every node submitted they are
all of them. -/
theorem Inv.perm_range {r : Exec} (h : Inv g r) (hl : g.deps.length ≤ r.completed.length) :
    r.completed.Perm (List.range g.deps.length) := by
  refine (h.nodup.subperm fun n hn => List.mem_range.2 (h.bound n hn)).perm_of_length_le ?_
  simpa using hl

/-! ## What one step submits -/

/-- The one thing a step does to `completed`: leave it, or submit a node not yet submitted
and found ready. -/
theorem step_completed (r : Exec) :
    (r.step g).completed = r.completed ∨
      ∃ i, i ∉ r.completed ∧ r.canExecute g i = true ∧
        (r.step g).completed = r.completed ++ [i] := by
  unfold Exec.step
  repeat' split
  -- every branch but the submission leaves `futures` alone
  all_goals first
    | exact .inl rfl
    | exact .inr ⟨_, ‹_ ∧ _›.1, ‹_ ∧ _›.2, completed_append ..⟩

theorem act_completed (r : Exec) (a : Act) :
    (r.act g a).completed = r.completed ∨
      ∃ i, i ∉ r.completed ∧ r.canExecute g i = true ∧
        (r.act g a).completed = r.completed ++ [i] := by
  cases a with
  | execute => exact step_completed r
  | pool a => exact .inl rfl

/-- A node that has a dependency is a node of the graph. -/
theorem lt_length_of_mem_depsOf {c d : Nat} (h : d ∈ g.depsOf c) : c < g.deps.length := by
  by_contra hc
  rw [TaskGraph.depsOf, List.getD_eq_getElem?_getD, List.getElem?_eq_none (by omega)] at h
  simp at h

/-- A node submitted during `execute` had `executed_` unset, so with a node of the graph
already executed the `while` is never left. -/
theorem Inv.ne_returned_of_executed {r : Exec} (h : Inv g r) {i : Nat} (hi : i < g.deps.length)
    (he : g.executed i = true) : r.pc ≠ .returned := fun hr => by
  have hmem := (h.perm_range (h.left 0 (.inr hr))).mem_iff.2 (List.mem_range.2 hi)
  simp [h.fresh i hmem] at he

/-- When `execute` returns, every node of the graph has run. -/
theorem Inv.isExecuted_of_returned {r : Exec} (h : Inv g r) (hr : r.pc = .returned) {i : Nat}
    (hi : i < g.deps.length) : r.isExecuted g i = true := by
  obtain ⟨f, hf, rfl⟩ := List.mem_map.1 ((h.perm_range (h.left 0 (.inr hr))).mem_iff.2
    (List.mem_range.2 hi))
  simp only [isExecuted, Bool.or_eq_true, List.any_eq_true, Bool.and_eq_true, beq_iff_eq,
    decide_eq_true_eq]
  exact .inr ⟨f, hf, rfl, h.done hr f hf⟩

/-! ## Tasks run after the tasks of their dependencies -/

variable (g) in
/-- The task of every submitted node runs after the tasks of its dependencies: each
dependency was executed before `execute` began, or its task is in a prefix of the pool's
record of finished tasks that the node's own task is not in. -/
def RanFirst (r : Exec) : Prop :=
  ∀ f ∈ r.futures, ∀ d ∈ g.depsOf f.2, g.executed d = true ∨
    ∃ f' ∈ r.futures, f'.2 = d ∧
      ∃ pre, pre <+: r.pool.executed ∧ f'.1 ∈ pre ∧ f.1 ∉ pre

theorem isExecuted_eq_true {r : Exec} {d : Nat} :
    r.isExecuted g d = true ↔
      g.executed d = true ∨ ∃ f ∈ r.futures, f.2 = d ∧ f.1 ∈ r.pool.executed := by
  simp [isExecuted]

/-- A step of `execute` moves the pool only by its own `pool.submit`. -/
theorem step_pool (r : Exec) :
    (r.step g).pool = r.pool ∨ (r.step g).pool = r.pool.act .submit := by
  unfold Exec.step
  repeat' split
  all_goals first
    | exact .inl rfl
    | exact .inr rfl

/-- A step submits at most one node, found ready, under the id of the pool's next task. -/
theorem step_futures (r : Exec) :
    (r.step g).futures = r.futures ∨
      ∃ i, r.canExecute g i = true ∧
        (r.step g).futures = r.futures ++ [(r.pool.accepted, i)] := by
  unfold Exec.step
  repeat' split
  all_goals first
    | exact .inl rfl
    | exact .inr ⟨_, ‹_ ∧ _›.2, rfl⟩

theorem Reachable.pool_reachable {n : Nat} {r : Exec} (h : Reachable g n r) :
    TaskPool.Reachable n r.pool := by
  induction h with
  | start hp => exact hp
  | @step r _ a ih =>
    cases a with
    | pool a => exact ih.step a
    | execute => exact (@step_pool g r).elim (fun he => he ▸ ih) fun he => he ▸ ih.step _

theorem RanFirst.act {n : Nat} {r : Exec} (h : RanFirst g r) (hp : TaskPool.Inv n r.pool)
    (a : Act) : RanFirst g (r.act g a) := by
  cases a with
  | pool a =>
    intro f hf d hd
    exact (h f hf d hd).imp_right fun ⟨f', hf', hd', pre, hpre, h1, h2⟩ =>
      ⟨f', hf', hd', pre, hpre.trans (r.pool.act_executed_prefix a), h1, h2⟩
  | execute =>
    show RanFirst g (r.step g)
    have hex : (r.step g).pool.executed = r.pool.executed :=
      (@step_pool g r).elim (fun he => by rw [he]) fun he => by
        rw [he]; exact r.pool.submit_executed
    intro f hf d hd
    rw [hex]
    rcases @step_futures g r with hfut | ⟨i, hi, hfut⟩ <;> rw [hfut] at hf ⊢
    · exact h f hf d hd
    rcases List.mem_append.mp hf with hf | hf
    · exact (h f hf d hd).imp_right fun ⟨f', hf', hd', pre, hpre, h1, h2⟩ =>
        ⟨f', List.mem_append_left _ hf', hd', pre, hpre, h1, h2⟩
    -- the node just submitted: its dependencies' tasks have finished, and its own task is new
    obtain rfl := List.mem_singleton.mp hf
    simp only [canExecute, Bool.and_eq_true, List.all_eq_true] at hi
    exact (isExecuted_eq_true.mp (hi.1 d hd)).imp_right fun ⟨f', hf', hd', h1⟩ =>
      ⟨f', List.mem_append_left _ hf', hd', r.pool.executed, List.prefix_refl _, h1,
        fun hmem => Nat.lt_irrefl _ (hp.lt_accepted_of_executed hmem)⟩

theorem Reachable.ranFirst {n : Nat} {r : Exec} (h : Reachable g n r) : RanFirst g r := by
  induction h with
  | start => simp [RanFirst, Exec.start]
  | step hr a ih => exact ih.act hr.pool_reachable.inv a

/-! ## Cycles -/

section Cycle

variable {C : List Nat} (hC : ∀ c ∈ C, g.executed c = false ∧ ∃ d ∈ g.depsOf c, d ∈ C)
include hC

/-- While no node of `C` is submitted, none is ready: each waits for a dependency in `C`. -/
theorem canExecute_eq_false_of_cycle {r : Exec} (h : ∀ c ∈ C, c ∉ r.completed) {c : Nat}
    (hc : c ∈ C) : r.canExecute g c = false := by
  obtain ⟨-, d, hd, hdC⟩ := hC c hc
  rw [canExecute, Bool.and_eq_false_iff, List.all_eq_false]
  refine .inl ⟨d, hd, fun hx => ?_⟩
  rcases mem_completed_of_isExecuted g hx with hx | hx
  · simp [(hC d hdC).1] at hx
  · exact h d hdC hx

theorem Reachable.not_mem_cycle {n : Nat} {r : Exec} (h : Reachable g n r) :
    ∀ c ∈ C, c ∉ r.completed := by
  induction h with
  | start => simp [Exec.start, completed]
  | step _ a ih =>
    rcases act_completed _ a with he | ⟨i, -, hi, he⟩ <;> rw [he]
    · exact ih
    · intro c hc hmem
      rcases List.mem_append.1 hmem with hmem | hmem
      · exact ih c hc hmem
      · rw [List.mem_singleton.1 hmem] at hc
        exact Bool.false_ne_true (canExecute_eq_false_of_cycle hC ih hc ▸ hi)

end Cycle

end Exec

open Exec

/-- Along every run of `execute(pool)`, whatever the pool's workers and other threads do:
`execute` submits each node at most once, never one whose `executed_` was set before it
began, and each only after all of its dependencies were submitted before it or executed before
`execute` began, so the order of `futures`, and of the results, respects the
dependencies.  The task of each submitted node runs after the tasks of its dependencies:
each of those is in a prefix of the pool's record of finished tasks that the node's own
task is not in.  When `execute` returns, it has submitted every node and every submitted
task has run. -/
theorem execute_submits_in_dependency_order (g : TaskGraph) {n : Nat} {r : Exec}
    (h : Reachable g n r) :
    r.completed.Nodup ∧ (∀ i ∈ r.completed, i < g.deps.length ∧ g.executed i = false) ∧
      g.DependencyOrder r.completed ∧
      (∀ f ∈ r.futures, ∀ d ∈ g.depsOf f.2, g.executed d = true ∨
        ∃ f' ∈ r.futures, f'.2 = d ∧ ∃ pre, pre <+: r.pool.executed ∧ f'.1 ∈ pre ∧ f.1 ∉ pre) ∧
      (r.pc = .returned → r.completed.Perm (List.range g.deps.length) ∧
        ∀ f ∈ r.futures, f.1 ∈ r.pool.executed) := by
  have hi := h.inv
  exact ⟨hi.nodup, fun i hin => ⟨hi.bound i hin, hi.fresh i hin⟩, hi.order, h.ranFirst,
    fun hr => ⟨hi.perm_range (hi.left 0 (.inr hr)), hi.done hr⟩⟩

/-- Node 1 depends on node 0: the first pass of the `for` submits node 0 only, and node 1
is submitted on a later pass, once task 0 has run, so task 1 runs after it. -/
example :
    let r := run ((TaskGraph.empty.addTask.addTask).addDependency 1 0) (start (TaskPool.init 1))
      [.execute, .execute, .execute, .execute, .pool (.work 0), .pool (.work 0), .execute,
        .execute, .execute, .pool (.work 0), .pool (.work 0), .execute, .execute, .execute,
        .execute, .execute]
    r.futures = [(0, 0), (1, 1)] ∧ r.pool.executed = [0, 1] ∧ r.pc = .returned := by
  decide

/-- The one-node graph, executed on a one-worker pool: submit, run, collect. -/
def oneNodeRun : Exec :=
  run TaskGraph.empty.addTask (start (TaskPool.init 1))
    [.execute, .execute, .pool .submit, .pool (.work 0), .pool (.work 0), .execute, .execute,
      .execute, .execute]

theorem execute_submits_in_dependency_order_one :
    oneNodeRun.completed.Nodup ∧
      (∀ i ∈ oneNodeRun.completed, i < TaskGraph.empty.addTask.deps.length ∧
        TaskGraph.empty.addTask.executed i = false) ∧
      TaskGraph.empty.addTask.DependencyOrder oneNodeRun.completed ∧
      (∀ f ∈ oneNodeRun.futures, ∀ d ∈ TaskGraph.empty.addTask.depsOf f.2,
        TaskGraph.empty.addTask.executed d = true ∨ ∃ f' ∈ oneNodeRun.futures, f'.2 = d ∧
          ∃ pre, pre <+: oneNodeRun.pool.executed ∧ f'.1 ∈ pre ∧ f.1 ∉ pre) ∧
      (oneNodeRun.pc = .returned →
        oneNodeRun.completed.Perm (List.range TaskGraph.empty.addTask.deps.length) ∧
          ∀ f ∈ oneNodeRun.futures, f.1 ∈ oneNodeRun.pool.executed) :=
  execute_submits_in_dependency_order _ (reachable_run _ .init _)

/-- Nodes of `C` that each depend on another node of `C`, none of them executed before, are
never submitted, and `execute` never returns. -/
theorem execute_never_returns_of_cycle (g : TaskGraph) (C : List Nat)
    (hC : ∀ c ∈ C, g.executed c = false ∧ ∃ d ∈ g.depsOf c, d ∈ C) (hne : C ≠ [])
    {n : Nat} {r : Exec} (h : Reachable g n r) :
    (∀ c ∈ C, c ∉ r.completed) ∧ r.pc ≠ .returned := by
  obtain ⟨c, hc⟩ := List.exists_mem_of_ne_nil C hne
  obtain ⟨-, d, hd, -⟩ := hC c hc
  refine ⟨h.not_mem_cycle hC, fun hr => h.not_mem_cycle hC c hc ?_⟩
  have hi := h.inv
  exact (hi.perm_range (hi.left 0 (.inr hr))).mem_iff.2
    (List.mem_range.2 (lt_length_of_mem_depsOf hd))

/-- Two tasks that depend on each other. -/
def twoCycle : TaskGraph :=
  ((TaskGraph.empty.addTask.addTask).addDependency 0 1).addDependency 1 0

theorem execute_never_returns_of_cycle_two :
    (∀ c ∈ [0, 1], twoCycle.executed c = false ∧ ∃ d ∈ twoCycle.depsOf c, d ∈ [0, 1]) ∧
      [0, 1] ≠ [] ∧
      ((∀ c ∈ [0, 1], c ∉ (run twoCycle (start (TaskPool.init 1)) (.replicate 5 .execute)).completed) ∧
        (run twoCycle (start (TaskPool.init 1)) (.replicate 5 .execute)).pc ≠ .returned) :=
  ⟨by decide, by decide, execute_never_returns_of_cycle twoCycle [0, 1] (by decide) (by decide)
    (reachable_run twoCycle .init _)⟩

/-- Once `execute` has returned, every node has `executed_` set, so a second `execute` of the
same graph, on any pool, submits nothing and never leaves its `while`. -/
theorem second_execute_never_returns (g : TaskGraph) (hg : g.deps ≠ []) {n : Nat} {r : Exec}
    (h : Reachable g n r) (hr : r.pc = .returned) {n' : Nat} {r' : Exec}
    (h' : Reachable (r.graph g) n' r') : r'.completed = [] ∧ r'.pc ≠ .returned := by
  have hall : ∀ i < g.deps.length, r.isExecuted g i = true := fun i => h.inv.isExecuted_of_returned hr
  have hi' := h'.inv
  refine ⟨List.eq_nil_iff_forall_not_mem.2 fun i hin => ?_, hi'.ne_returned_of_executed
    (List.length_pos.2 hg) (hall 0 (List.length_pos.2 hg))⟩
  have := hi'.fresh i hin
  simp [graph, hall i (hi'.bound i hin)] at this

theorem second_execute_never_returns_one :
    TaskGraph.empty.addTask.deps ≠ [] ∧ oneNodeRun.pc = .returned ∧
      ((run (oneNodeRun.graph TaskGraph.empty.addTask) (start (TaskPool.init 1))
            (.replicate 5 .execute)).completed = [] ∧
        (run (oneNodeRun.graph TaskGraph.empty.addTask) (start (TaskPool.init 1))
            (.replicate 5 .execute)).pc ≠ .returned) :=
  ⟨by decide, by decide, second_execute_never_returns _ (by decide) (reachable_run _ .init _)
    (by decide) (reachable_run _ .init _)⟩

end Graph
end AsyncToolkit
