import Mathlib.Algebra.Group.Nat.Basic
import Mathlib.Data.Nat.ModEq
import Mathlib.Data.List.Basic

/-!
# async_toolkit: submissions to the work-stealing scheduler

This module models the submitting side of `scheduler::WorkStealingScheduler` of
`include/async_toolkit/scheduler/work_stealing_scheduler.hpp`.

**State.**  The deques of `queues_` (front first), the counter `thread_index_` (a
`size_t`), and the `thread_local static size_t index` of `get_worker_index`, one slot
per thread (`none` before the thread's first call).  The slot is static, so it
outlives a scheduler: the constructor sets `thread_index_ = 0` and leaves the slots as
they are.  A task is an opaque value; `submit_with_priority` wraps it with a given
`wrap`.  `cv_.notify_one()` and `cv_.notify_all()` change nothing here.

**Faults.**  A call stops with a `Fault` where the code divides or takes a remainder
by `queues_.size() = 0` (undefined behaviour; a trap on common hardware), or indexes
`queues_` out of range.

**Loops.**  The two `for` loops of `submit_batch` are `distribute` (the outer loop,
with fuel `N - i`) and `pushBlock` (the inner one); `rest` is the range `[it, end)`.

**Results.**
* `pushBlock_eq`, `distribute_eq`: what the two loops append to which queue.
* `batchShare_flatten`: the shares of the specification are the batch, in order.
* With `N ≥ 1` queues no call faults; with none, every call stops at its first
  `% queues_.size()`.
-/

namespace AsyncToolkit
namespace Scheduler
namespace WorkStealing

/-- Where a call stops short of returning: a division or remainder by zero, or
`queues_[i]` with `i ≥ queues_.size()`. -/
inductive Fault
  | divByZero
  | outOfRange
  deriving DecidableEq, Repr

/-- Unsigned `a / b`. -/
def udiv (a b : Nat) : Except Fault Nat := if b = 0 then throw .divByZero else pure (a / b)

/-- Unsigned `a % b`. -/
def umod (a b : Nat) : Except Fault Nat := if b = 0 then throw .divByZero else pure (a % b)

theorem ok_bind {ε β γ : Type} (b : β) (f : β → Except ε γ) : (Except.ok b >>= f) = f b := rfl

theorem udiv_of_pos {a b : Nat} (h : 0 < b) : udiv a b = .ok (a / b) := if_neg (by omega)

theorem umod_of_pos {a b : Nat} (h : 0 < b) : umod a b = .ok (a % b) := if_neg (by omega)

@[simp] theorem udiv_zero (a : Nat) : udiv a 0 = .error .divByZero := rfl

@[simp] theorem umod_zero (a : Nat) : umod a 0 = .error .divByZero := rfl

/-- The scheduler's queues, its counter, and the threads' `thread_local` indices. -/
structure Sched (α : Type) where
  queues : List (List α)
  threadIndex : Nat
  slot : Nat → Option Nat

variable {α : Type}

namespace Sched

/-- `WorkStealingScheduler(thread_count)`: `thread_count` empty queues, `thread_index_ = 0`;
no argument is checked. -/
def construct (threadCount : Nat) (slot : Nat → Option Nat) : Sched α :=
  ⟨List.replicate threadCount [], 0, slot⟩

/-- `thread_local static size_t index = thread_index_++;` in thread `th`. -/
def threadLocalIndex (th : Nat) (s : Sched α) : Nat × Sched α :=
  match s.slot th with
  | some i => (i, s)
  | none =>
    (s.threadIndex, { s with threadIndex := (s.threadIndex + 1) % 2 ^ 64
                             slot := Function.update s.slot th (some s.threadIndex) })

/-- `get_worker_index()` in thread `th`: `index % queues_.size()`. -/
def getWorkerIndex (th : Nat) (s : Sched α) : Except Fault (Nat × Sched α) :=
  let r := s.threadLocalIndex th
  return (← umod r.1 r.2.queues.length, r.2)

end Sched

/-- `queues_[i].push(task)`: append at the back of deque `i`. -/
def pushAt (i : Nat) (t : α) (qs : List (List α)) : Except Fault (List (List α)) :=
  if i < qs.length then pure (qs.modify (· ++ [t]) i) else throw .outOfRange

/-- The inner loop of `submit_batch`:
`for (j = 0; j < count && it != end; ++j) { queues_[current].push(*it); ++it; }`.
It returns the tasks left and the queues. -/
def pushBlock (current : Nat) :
    Nat → List α → List (List α) → Except Fault (List α × List (List α))
  | 0, rest, qs => pure (rest, qs)
  | _ + 1, [], qs => pure ([], qs)
  | count + 1, t :: rest, qs => do pushBlock current count rest (← pushAt current t qs)

/-- The outer loop of `submit_batch` from iteration `i` on, `fuel = N - i`:
`for (; i < N && it != end; ++i)`, the last queue taking `end - it`, and
`current = (current + 1) % N` after each block. -/
def distribute (n perQueue : Nat) :
    Nat → Nat → Nat → List α → List (List α) → Except Fault (List (List α))
  | 0, _, _, _, qs => pure qs
  | fuel + 1, i, current, rest, qs =>
    if rest.isEmpty then pure qs
    else do
      let r ← pushBlock current (if i = n - 1 then rest.length else perQueue) rest qs
      distribute n perQueue fuel (i + 1) (← umod (current + 1) n) r.1 r.2

namespace Sched

/-- `submit(task)` in thread `th`. -/
def submit (th : Nat) (t : α) (s : Sched α) : Except Fault (Sched α) := do
  let r ← s.getWorkerIndex th
  return { r.2 with queues := ← pushAt r.1 t r.2.queues }

/-- `submit_with_priority(task, priority)`: `submit` of the wrapped task. -/
def submitWithPriority (wrap : α → Int → α) (th : Nat) (t : α) (priority : Int)
    (s : Sched α) : Except Fault (Sched α) :=
  s.submit th (wrap t priority)

/-- `submit_batch(begin, end)` in thread `th`. -/
def submitBatch (th : Nat) (ts : List α) (s : Sched α) : Except Fault (Sched α) := do
  let r ← s.getWorkerIndex th
  let n := r.2.queues.length
  let perQueue ← udiv ts.length n
  return { r.2 with queues := ← distribute n perQueue n 0 r.1 ts r.2.queues }

end Sched

/-- The share of queue `(idx + i) % N` that the specification names: tasks
`[i·q, (i+1)·q)`, and for the last block `[(N−1)·q, c)`. -/
def batchShare (n q : Nat) (ts : List α) (i : Nat) : List α :=
  if i + 1 < n then (ts.drop (i * q)).take q else ts.drop (i * q)

section Lemmas

namespace Sched

variable (s : Sched α) (th : Nat)

@[simp] theorem construct_queues (threadCount : Nat) (slot : Nat → Option Nat) :
    (construct threadCount slot : Sched α).queues = List.replicate threadCount [] := rfl

@[simp] theorem threadLocalIndex_queues : (s.threadLocalIndex th).2.queues = s.queues := by
  unfold threadLocalIndex
  split <;> rfl

theorem getWorkerIndex_of_pos (h : 0 < s.queues.length) :
    s.getWorkerIndex th =
      .ok ((s.threadLocalIndex th).1 % s.queues.length, s.threadLocalIndex th |>.2) := by
  simp only [getWorkerIndex, threadLocalIndex_queues, umod_of_pos h]
  rfl

theorem getWorkerIndex_of_nil (h : s.queues = []) : s.getWorkerIndex th = .error .divByZero := by
  simp only [getWorkerIndex, threadLocalIndex_queues, h, List.length_nil, umod_zero]
  rfl

end Sched

theorem pushAt_of_lt {i : Nat} (t : α) {qs : List (List α)} (h : i < qs.length) :
    pushAt i t qs = .ok (qs.modify (· ++ [t]) i) := if_pos h

/-- The inner loop appends the first `count` tasks left to queue `current`. -/
theorem pushBlock_eq {current : Nat} :
    ∀ (count : Nat) (rest : List α) (qs : List (List α)), current < qs.length →
      pushBlock current count rest qs =
        .ok (rest.drop count, qs.modify (· ++ rest.take count) current)
  | 0, rest, qs, _ => by
    simp only [pushBlock, List.drop_zero, List.take_zero, List.append_nil]
    exact congrArg _ (congrArg _ (List.modify_id current qs).symm)
  | _ + 1, [], qs, _ => by
    simp only [pushBlock, List.drop_nil, List.take_nil, List.append_nil]
    exact congrArg _ (congrArg _ (List.modify_id current qs).symm)
  | count + 1, t :: rest, qs, h => by
    rw [pushBlock, pushAt_of_lt t h]
    show pushBlock current count rest (qs.modify (· ++ [t]) current) = _
    rw [pushBlock_eq count rest _ (by rwa [List.length_modify]), List.modify_modify_eq]
    simp [Function.comp_def]

/-- Two offsets below `n` from one start land on one queue only if they are equal. -/
theorem add_mod_eq_iff {n idx i j : Nat} (hi : i < n) (hj : j < n) :
    (idx + i) % n = (idx + j) % n ↔ i = j := by
  refine ⟨fun h => ?_, fun h => h ▸ rfl⟩
  have h' : i % n = j % n := Nat.ModEq.add_left_cancel' idx h
  rwa [Nat.mod_eq_of_lt hi, Nat.mod_eq_of_lt hj] at h'

/-- Past the end of the batch every share is empty. -/
theorem batchShare_eq_nil {n q : Nat} {ts : List α} {i : Nat} (h : ts.length ≤ i * q) :
    batchShare n q ts i = [] := by
  unfold batchShare
  split <;> simp [List.drop_eq_nil_iff.2 h]

/-- One round of the outer loop pushes exactly the share of its block. -/
theorem take_block_eq_batchShare {n q i : Nat} {ts rest : List α} (hr : rest = ts.drop (i * q))
    (hi : i < n) : rest.take (if i = n - 1 then rest.length else q) = batchShare n q ts i := by
  unfold batchShare
  by_cases hl : i = n - 1
  · rw [if_pos hl, if_neg (by omega), List.take_length, hr]
  · rw [if_neg hl, if_pos (by omega), hr]

/-- The outer loop from iteration `i`: each queue `(idx + j) % N` with `i ≤ j < N`
gets its share appended, the others are left alone. -/
theorem distribute_eq {n q idx : Nat} {ts : List α} (hn : 0 < n) :
    ∀ (fuel i : Nat) (rest : List α) (qs : List (List α)), i + fuel = n →
      (i < n → rest = ts.drop (i * q)) → qs.length = n →
      ∃ qs', distribute n q fuel i ((idx + i) % n) rest qs = .ok qs' ∧ qs'.length = n ∧
        ∀ j < n, qs'[(idx + j) % n]? =
          qs[(idx + j) % n]?.map (· ++ if i ≤ j then batchShare n q ts j else [])
  | 0, i, rest, qs, hi, _, hl => ⟨qs, rfl, hl, fun j hj => by simp [show ¬i ≤ j by omega]⟩
  | fuel + 1, i, rest, qs, hi, hr, hl => by
    have hr := hr (by omega)
    by_cases he : rest.isEmpty
    · refine ⟨qs, by rw [distribute, if_pos he]; rfl, hl, fun j hj => ?_⟩
      rw [hr, List.isEmpty_iff, List.drop_eq_nil_iff] at he
      by_cases hij : i ≤ j
      · simp [batchShare_eq_nil (le_trans he (Nat.mul_le_mul_right q hij))]
      · simp [hij]
    · have hc : (idx + i) % n < qs.length := by rw [hl]; exact Nat.mod_lt _ hn
      obtain ⟨qs', hrun, hl', hqs'⟩ := @distribute_eq n q idx ts hn fuel (i + 1)
        (rest.drop (if i = n - 1 then rest.length else q))
        (qs.modify (· ++ batchShare n q ts i) ((idx + i) % n)) (by omega)
        (fun h => by rw [if_neg (by omega), hr, List.drop_drop, Nat.succ_mul])
        (by rw [List.length_modify, hl])
      refine ⟨qs', ?_, hl', fun j hj => ?_⟩
      · rw [distribute, if_neg he, pushBlock_eq _ _ _ hc, take_block_eq_batchShare hr (by omega),
          umod_of_pos hn, Nat.mod_add_mod]
        exact hrun
      · rw [hqs' j hj, List.getElem?_modify]
        simp only [add_mod_eq_iff (show i < n by omega) hj]
        rcases Nat.lt_trichotomy i j with h | rfl | h
        · cases qs[(idx + j) % n]? <;> simp [h.ne, h.le, Nat.succ_le_of_lt h]
        · cases qs[(idx + i) % n]? <;> simp
        · cases qs[(idx + j) % n]? <;> simp [h.ne', show ¬i + 1 ≤ j by omega, show ¬i ≤ j by omega]

/-- The shares of blocks `0, …, m - 1`, for `m < N`, are the first `m·q` tasks. -/
theorem batchShare_flatten_lt {n q : Nat} (ts : List α) :
    ∀ m, m < n → ((List.range m).map (batchShare n q ts)).flatten = ts.take (m * q)
  | 0, _ => by simp
  | m + 1, h => by
    rw [List.range_succ, List.map_append, List.flatten_append, batchShare_flatten_lt ts m
      (by omega), Nat.succ_mul, List.take_add]
    simp [batchShare, h]

/-- The shares of the `N` blocks, in block order, are the batch. -/
theorem batchShare_flatten {n q : Nat} (ts : List α) (hn : 0 < n) :
    ((List.range n).map (batchShare n q ts)).flatten = ts := by
  obtain ⟨m, rfl⟩ : ∃ m, n = m + 1 := ⟨n - 1, by omega⟩
  rw [List.range_succ, List.map_append, List.flatten_append, batchShare_flatten_lt ts m
    (by omega)]
  simp [batchShare]

namespace Sched

variable (s : Sched α) (th : Nat)

theorem submit_of_pos (h : 0 < s.queues.length) (t : α) : ∃ s', s.submit th t = .ok s' := by
  have hi : (s.threadLocalIndex th).1 % s.queues.length < (s.threadLocalIndex th).2.queues.length := by
    rw [threadLocalIndex_queues]; exact Nat.mod_lt _ h
  rw [submit, getWorkerIndex_of_pos s th h, ok_bind, pushAt_of_lt t hi]
  exact ⟨_, rfl⟩

theorem submit_of_nil (h : s.queues = []) (t : α) : s.submit th t = .error .divByZero := by
  rw [submit, getWorkerIndex_of_nil s th h]
  rfl

/-- With `N ≥ 1` queues, `submit_batch` returns, keeps `N` queues, and appends to queue
`(idx + i) % N` the share of block `i`, where `idx` is the index the call computed. -/
theorem submitBatch_spec (h : 0 < s.queues.length) (ts : List α) :
    ∃ s', s.submitBatch th ts = .ok s' ∧ s'.queues.length = s.queues.length ∧
      ∀ i < s.queues.length,
        s'.queues[((s.threadLocalIndex th).1 % s.queues.length + i) % s.queues.length]? =
          s.queues[((s.threadLocalIndex th).1 % s.queues.length + i) % s.queues.length]?.map
            (· ++ batchShare s.queues.length (ts.length / s.queues.length) ts i) := by
  obtain ⟨qs', hrun, hl, hqs⟩ := @distribute_eq α _ (ts.length / s.queues.length)
    ((s.threadLocalIndex th).1 % s.queues.length) ts h s.queues.length 0 ts s.queues (by omega)
    (fun _ => by simp) rfl
  refine ⟨{ (s.threadLocalIndex th).2 with queues := qs' }, ?_, hl, fun i hi => ?_⟩
  · rw [submitBatch, getWorkerIndex_of_pos s th h, ok_bind]
    simp only [threadLocalIndex_queues, Nat.add_zero, Nat.mod_mod] at hrun ⊢
    rw [udiv_of_pos h, ok_bind, hrun]
    rfl
  · simpa using hqs i hi

theorem submitBatch_of_nil (h : s.queues = []) (ts : List α) :
    s.submitBatch th ts = .error .divByZero := by
  rw [submitBatch, getWorkerIndex_of_nil s th h]
  rfl

end Sched

end Lemmas

namespace Sched

/-- `submit_batch` with `N ≥ 1` queues: the call's index `idx` is a queue; the `N` shares
of the specification, in block order, are the batch; and the call returns with `N`
queues, queue `(idx + i) % N` having the share of block `i` appended. -/
theorem submitBatch_stripes (s : Sched α) (th : Nat) (ts : List α)
    (hn : 0 < s.queues.length) :
    ∃ idx s', s.getWorkerIndex th = .ok (idx, s') ∧ idx < s.queues.length ∧
      ((List.range s.queues.length).map
        (batchShare s.queues.length (ts.length / s.queues.length) ts)).flatten = ts ∧
      ∃ s'', s.submitBatch th ts = .ok s'' ∧ s''.queues.length = s.queues.length ∧
        ∀ i < s.queues.length, s''.queues[(idx + i) % s.queues.length]? =
          s.queues[(idx + i) % s.queues.length]?.map
            (· ++ batchShare s.queues.length (ts.length / s.queues.length) ts i) :=
  ⟨_, _, getWorkerIndex_of_pos s th hn, Nat.mod_lt _ hn, batchShare_flatten ts hn,
    submitBatch_spec s th hn ts⟩

/-- A thread whose `thread_local` index is 4 submits eight tasks to three queues: `idx = 1`,
`q = 2`, and queues `1`, `2`, `0` get `[0, 2)`, `[2, 4)` and `[4, 8)`. -/
example : ((construct 3 (fun _ => some 4) : Sched Nat).submitBatch 0 (List.range 8)).map queues =
    .ok [[4, 5, 6, 7], [0, 1], [2, 3]] := rfl

/-- Eight tasks over three queues, submitted by a thread whose `thread_local` index is 4. -/
theorem submitBatch_stripes_eight :
    0 < (construct 3 (fun _ => some 4) : Sched Nat).queues.length ∧
      ∃ idx s', (construct 3 (fun _ => some 4) : Sched Nat).getWorkerIndex 0 = .ok (idx, s') ∧
        idx < 3 ∧ ((List.range 3).map (batchShare 3 (8 / 3) (List.range 8))).flatten =
          List.range 8 ∧
        ∃ s'', (construct 3 (fun _ => some 4) : Sched Nat).submitBatch 0 (List.range 8) =
            .ok s'' ∧ s''.queues.length = 3 ∧
          ∀ i < 3, s''.queues[(idx + i) % 3]? =
            (construct 3 (fun _ => some 4) : Sched Nat).queues[(idx + i) % 3]?.map
              (· ++ batchShare 3 (8 / 3) (List.range 8) i) :=
  ⟨by decide, submitBatch_stripes _ 0 (List.range 8) (by decide)⟩

/-- Every submission divides by `queues_.size()`: with no queue (`thread_count = 0`, which
the constructor accepts) each of `submit`, `submit_with_priority` and `submit_batch`
stops at its `% queues_.size()`, whatever the thread and the counter; with a queue none
of them faults, so every queue index they use is in range. -/
theorem submissions_fault_iff_no_queues (s : Sched α) (wrap : α → Int → α) (th : Nat) (t : α)
    (priority : Int) (ts : List α) :
    (s.queues = [] → s.submit th t = .error .divByZero ∧
        s.submitWithPriority wrap th t priority = .error .divByZero ∧
        s.submitBatch th ts = .error .divByZero) ∧
      (s.queues ≠ [] → (∃ s', s.submit th t = .ok s') ∧
        (∃ s', s.submitWithPriority wrap th t priority = .ok s') ∧
        ∃ s', s.submitBatch th ts = .ok s') := by
  refine ⟨fun h => ⟨submit_of_nil s th h t, submit_of_nil s th h _, submitBatch_of_nil s th h ts⟩,
    fun h => ?_⟩
  have hn : 0 < s.queues.length := List.length_pos.2 h
  obtain ⟨s', hs', -⟩ := submitBatch_spec s th hn ts
  exact ⟨submit_of_pos s th hn t, submit_of_pos s th hn _, s', hs'⟩

end Sched

end WorkStealing
end Scheduler
end AsyncToolkit
