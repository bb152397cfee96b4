import AsyncToolkit.Scheduler.PriorityScheduler
import Mathlib.Data.List.Perm.Lattice

/-!
# async_toolkit: dispatch and cancellation in the priority scheduler

**Dispatch.**  `top` returns a task that no task of the heap outranks
(`top_not_outranked`), because `Task::operator<` is a strict weak order; a worker
takes the top task and only when it is due.

**Cancellation.**  The draining loop of `cancel` keeps exactly the tasks whose id
differs and reports whether one had the id (`drain_spec`).

**Ids.**  `next_task_id_++` hands out fresh ids while fewer than `2 ^ 64` were
issued.  The invariant `IdInv` says that the ids of all tasks (pending, about to be
pushed, dispatched) and of all successful cancels are pairwise distinct and below
the number issued.  It holds in every reachable state of such a run.

**Shutdown.**  A task leaves the heap only when a worker dispatches it or a `cancel` finds
its id, and a worker returns only when `stop_` is set and the heap is empty.

**Results.**  `dispatch_cancel_safety`, and `pending_tasks_run_before_exit`: after
`~PriorityScheduler` sets `stop_` the workers go on dispatching, and by the time any of
them returns every task of the heap at that moment was dispatched, once due, or cancelled.
-/

namespace AsyncToolkit
namespace Scheduler

theorem Task.lt_iff (t u : Task) : Task.lt t u = true ↔ u.Outranks t := by
  unfold Task.lt Task.Outranks
  split_ifs with h <;> simp <;> omega

theorem Task.not_outranks_self (t : Task) : ¬ t.Outranks t := by
  unfold Task.Outranks; omega

theorem top_eq_none {h : List Task} : top h = none ↔ h = [] := by
  cases h with
  | nil => simp [top]
  | cons t ts => simp only [top, reduceCtorEq, iff_false]; split <;> [simp; split <;> simp]

theorem top_mem {h : List Task} {t : Task} (ht : top h = some t) : t ∈ h := by
  induction h generalizing t with
  | nil => cases ht
  | cons t0 ts ih =>
    simp only [top] at ht
    split at ht
    · cases ht; exact List.mem_cons_self _ _
    · split at ht <;> cases ht
      · exact List.mem_cons_of_mem _ (ih ‹_›)
      · exact List.mem_cons_self _ _

/-- No task of the heap outranks its top. -/
theorem top_not_outranked {h : List Task} {t : Task} (ht : top h = some t) :
    ∀ u ∈ h, ¬ u.Outranks t := by
  induction h generalizing t with
  | nil => cases ht
  | cons t0 ts ih =>
    simp only [top] at ht
    split at ht
    · rename_i hnone
      cases ht
      rw [top_eq_none.1 hnone]
      simpa using Task.not_outranks_self t0
    · rename_i u0 hu0
      have ihu := ih hu0
      split at ht <;> cases ht
      · rename_i hlt
        rw [Task.lt_iff] at hlt
        refine fun u hu => (List.mem_cons.1 hu).elim (fun h => h ▸ ?_) (ihu u)
        unfold Task.Outranks at hlt ⊢; omega
      · rename_i hlt
        rw [Task.lt_iff] at hlt
        refine fun u hu => (List.mem_cons.1 hu).elim (fun h => h ▸ Task.not_outranks_self _) ?_
        intro hu' hout
        exact ihu u hu' (by unfold Task.Outranks at hlt hout ⊢; omega)

namespace Sched

/-- The draining loop, given enough fuel, keeps exactly the tasks whose id differs and
finds the id exactly when some task has it. -/
theorem drain_spec (id : Nat) {fuel : Nat} {h : List Task} (hf : h.length ≤ fuel) :
    (drain id fuel h).1.Perm (h.filter (·.taskId ≠ id)) ∧
      ((drain id fuel h).2 = true ↔ ∃ t ∈ h, t.taskId = id) := by
  induction fuel generalizing h with
  | zero => simp [List.length_eq_zero.1 (Nat.le_zero.1 hf), drain]
  | succ fuel ih =>
    cases ht : top h with
    | none => rw [top_eq_none.1 ht]; simp [drain, top]
    | some t =>
      have hmem := top_mem ht
      have hperm := List.perm_cons_erase hmem
      obtain ⟨ih1, ih2⟩ := ih (h := pop t h) (by
        rw [pop, List.length_erase_of_mem hmem]; omega)
      have hfilter := hperm.filter (·.taskId ≠ id)
      have hex :
          (∃ u ∈ h, u.taskId = id) ↔ t.taskId = id ∨ ∃ u ∈ pop t h, u.taskId = id := by
        unfold pop
        constructor
        · rintro ⟨u, hu, rfl⟩
          rcases (hperm.mem_iff.1 hu) with _ | ⟨_, hu⟩
          · exact .inl rfl
          · exact .inr ⟨u, hu, rfl⟩
        · rintro (h1 | ⟨u, hu, rfl⟩)
          · exact ⟨t, hmem, h1⟩
          · exact ⟨u, hperm.symm.subset (List.mem_cons_of_mem _ hu), rfl⟩
      by_cases hid : t.taskId = id
      · simp only [drain, ht, hid, ne_eq, not_true_eq_false, ↓reduceIte]
        refine ⟨ih1.trans ?_, by simpa [hid] using hex.symm⟩
        simpa [List.filter_cons, hid] using hfilter.symm
      · simp only [drain, ht, hid, ne_eq, not_false_eq_true, ↓reduceIte]
        refine ⟨(ih1.cons t).trans ?_, by rw [ih2, hex]; simp [hid]⟩
        simpa [List.filter_cons, hid] using hfilter.symm

theorem foldl_push (l acc : List Task) : l.foldl (fun h t => push t h) acc = acc ++ l := by
  induction l generalizing acc with
  | nil => simp
  | cons t l ih => rw [List.foldl_cons, ih]; simp [push]

/-- `cancel(id)` returns `true` exactly when a pending task has the id, and leaves pending
exactly the other tasks. -/
theorem cancel_spec (s : Sched) (id : Nat) :
    ((s.cancel id).1 = true ↔ ∃ t ∈ s.tasks, t.taskId = id) ∧
      (s.cancel id).2.tasks.Perm (s.tasks.filter (·.taskId ≠ id)) := by
  obtain ⟨h1, h2⟩ := drain_spec id (le_refl s.tasks.length)
  exact ⟨h2, by simpa [cancel, foldl_push] using h1⟩

end Sched

/-- The task a caller holds between taking its id and pushing it. -/
def Caller.held : Caller → Option Task
  | .pushing t => some t
  | _ => none

theorem filterMap_set_perm {β γ : Type} [DecidableEq γ] (f : β → Option γ) {l : List β}
    {c : Nat} {y : β} (x : β) (hy : l[c]? = some y) :
    ((l.set c x).filterMap f ++ (f y).toList).Perm (l.filterMap f ++ (f x).toList) := by
  induction l generalizing c with
  | nil => cases hy
  | cons a l ih =>
    cases c with
    | zero =>
      simp only [List.getElem?_cons_zero, Option.some.injEq] at hy
      subst hy
      refine List.perm_iff_count.2 fun b => ?_
      simp only [List.set_cons_zero, List.filterMap_cons, List.count_append]
      cases f a <;> cases f x <;> simp [List.count_cons]; omega
    | succ c =>
      have := (ih (by simpa using hy)).append_left (f a).toList
      rw [List.set_cons_succ]
      cases hfa : f a <;> simpa [List.filterMap_cons, hfa] using this

namespace Sched

/-- Ids of every task that exists: pending, held by a caller about to push, dispatched. -/
def ids (s : Sched) : List Nat :=
  (s.tasks ++ s.callers.filterMap Caller.held ++ s.dispatched).map Task.taskId

/-- Ids stay unique while fewer than `2 ^ 64` were issued. -/
structure IdInv (s : Sched) : Prop where
  nodup : (s.cancelled ++ s.ids).Nodup
  lt : ∀ id ∈ s.cancelled ++ s.ids, id < s.issued
  next : s.nextTaskId = s.issued % 2 ^ 64

end Sched

namespace Sched

theorem check_dispatch {s : Sched} {t : Task} (h : s.check.2 = some t) :
    top s.tasks = some t ∧ t.scheduleTime ≤ s.now := by
  unfold check at h
  split_ifs at h
  cases ht : top s.tasks with
  | none => simp [ht] at h
  | some u =>
    simp only [ht] at h
    split_ifs at h with hle
    cases h
    exact ⟨rfl, hle⟩

/-- A worker dispatches only the top task, only when it is due, and pops it. -/
theorem workerStep_dispatch {s : Sched} {w : Nat} {t : Task} (h : (s.workerStep w).2 = some t) :
    top s.tasks = some t ∧ t.scheduleTime ≤ s.now ∧
      (s.workerStep w).1.tasks = pop t s.tasks := by
  unfold workerStep at h ⊢
  split at h <;> simp only at h <;> try cases h
  all_goals exact ⟨(check_dispatch h).1, (check_dispatch h).2, by simp [h]⟩

/-- Every task that exists: pending, held by a caller about to push, dispatched. -/
def allTasks (s : Sched) : List Task :=
  s.tasks ++ s.callers.filterMap Caller.held ++ s.dispatched

theorem ids_eq (s : Sched) : s.ids = s.allTasks.map Task.taskId := rfl

/-- How one action changes the tasks that exist, the successful cancels and the counter. -/
inductive IdChange (s s' : Sched) : Prop
  | same : s'.allTasks.Perm s.allTasks → s'.cancelled = s.cancelled → s'.issued = s.issued →
      s'.nextTaskId = s.nextTaskId → IdChange s s'
  | issue (t : Task) : t.taskId = s.nextTaskId → s'.allTasks.Perm (s.allTasks ++ [t]) →
      s'.cancelled = s.cancelled → s'.issued = s.issued + 1 →
      s'.nextTaskId = (s.nextTaskId + 1) % 2 ^ 64 → IdChange s s'
  | cancel (id : Nat) : s'.tasks.Perm (s.tasks.filter (·.taskId ≠ id)) →
      s'.callers = s.callers → s'.dispatched = s.dispatched →
      s'.cancelled = s.cancelled ++ (if ∃ t ∈ s.tasks, t.taskId = id then [id] else []) →
      s'.issued = s.issued → s'.nextTaskId = s.nextTaskId → IdChange s s'

theorem IdChange.rfl' {s s' : Sched} (ht : s'.tasks = s.tasks) (hc : s'.callers = s.callers)
    (hd : s'.dispatched = s.dispatched) (hx : s'.cancelled = s.cancelled)
    (hi : s'.issued = s.issued) (hn : s'.nextTaskId = s.nextTaskId) : IdChange s s' :=
  .same (by simp [allTasks, ht, hc, hd]) hx hi hn

theorem idChange_scheduleAt (s : Sched) (c : Nat) (time priority : Int) :
    IdChange s (s.scheduleAt c time priority) := by
  unfold scheduleAt
  split
  · rename_i hc
    refine .issue ⟨priority, time, s.nextTaskId⟩ rfl ?_ rfl rfl rfl
    have := filterMap_set_perm Caller.held (Caller.pushing ⟨priority, time, s.nextTaskId⟩) hc
    refine List.perm_iff_count.2 fun b => ?_
    have hb := this.count_eq b
    simp only [allTasks, List.count_append] at hb ⊢
    simp [Caller.held] at hb
    omega
  · exact .rfl' rfl rfl rfl rfl rfl rfl

theorem idChange_push (s : Sched) (c : Nat) : IdChange s (s.pushStep c) := by
  unfold pushStep
  split
  · rename_i t hc
    refine .same ?_ rfl rfl rfl
    have := filterMap_set_perm Caller.held Caller.notifying hc
    refine List.perm_iff_count.2 fun b => ?_
    have hb := this.count_eq b
    simp only [allTasks, push, List.count_append] at hb ⊢
    simp [Caller.held] at hb
    omega
  · exact .rfl' rfl rfl rfl rfl rfl rfl

theorem idChange_notify (s : Sched) (c w : Nat) : IdChange s (s.notifyOne c w) := by
  unfold notifyOne
  split
  · rename_i hc
    have := filterMap_set_perm Caller.held Caller.idle hc
    simp only [Caller.held, Option.toList, List.append_nil] at this
    split_ifs
    · exact .same (by simpa [allTasks] using this.append_right _ |>.append_left _) rfl rfl rfl
    · exact .same (by simpa [allTasks] using this.append_right _ |>.append_left _) rfl rfl rfl
    · exact .rfl' rfl rfl rfl rfl rfl rfl
  · exact .rfl' rfl rfl rfl rfl rfl rfl

theorem idChange_cancel (s : Sched) (id : Nat) : IdChange s (s.cancel id).2 := by
  obtain ⟨h1, h2⟩ := cancel_spec s id
  refine .cancel id h2 rfl rfl ?_ rfl rfl
  by_cases hf : ∃ t ∈ s.tasks, t.taskId = id
  · have : (s.cancel id).1 = true := h1.2 hf
    simp only [cancel] at this
    simp [cancel, this, hf]
  · have : (s.cancel id).1 = false := by simpa using mt h1.1 hf
    simp only [cancel] at this
    simp [cancel, this, hf]

theorem workerStep_frame (s : Sched) (w : Nat) :
    (s.workerStep w).1.callers = s.callers ∧ (s.workerStep w).1.cancelled = s.cancelled ∧
    (s.workerStep w).1.issued = s.issued ∧ (s.workerStep w).1.nextTaskId = s.nextTaskId ∧
    (s.workerStep w).1.dispatched = s.dispatched ++ (s.workerStep w).2.toList ∧
    (s.workerStep w).1.tasks = (s.workerStep w).2.elim s.tasks (pop · s.tasks) := by
  unfold workerStep
  split <;> simp

theorem idChange_work (s : Sched) (w : Nat) : IdChange s (s.workerStep w).1 := by
  obtain ⟨hc, hx, hi, hn, hd, ht⟩ := workerStep_frame s w
  refine .same ?_ hx hi hn
  cases hw : (s.workerStep w).2 with
  | none => simp [allTasks, hc, hd, ht, hw]
  | some t =>
    have hmem := top_mem (workerStep_dispatch hw).1
    rw [hw] at hd ht
    simp only [allTasks, hc, hd, ht, Option.elim, pop, Option.toList]
    have h1 := List.perm_cons_erase hmem
    refine List.perm_iff_count.2 fun b => ?_
    have h2 := h1.count_eq b
    simp only [List.count_append, List.count_cons, List.count_nil] at h2 ⊢
    omega

theorem idChange_act (s : Sched) (a : Act) : IdChange s (s.act a) := by
  cases a with
  | scheduleAt c time p => exact idChange_scheduleAt s c time p
  | scheduleAfter c d p => exact idChange_scheduleAt s c _ p
  | schedule c p => exact idChange_scheduleAt s c _ p
  | push c => exact idChange_push s c
  | notify c w => exact idChange_notify s c w
  | cancel id => exact idChange_cancel s id
  | work w => exact idChange_work s w
  | wakeSpuriously w => simp only [act]; split_ifs <;> exact .rfl' rfl rfl rfl rfl rfl rfl
  | tick d => exact .rfl' rfl rfl rfl rfl rfl rfl
  | setStop => simp only [act]; split_ifs <;> exact .rfl' rfl rfl rfl rfl rfl rfl
  | notifyAll => simp only [act]; split_ifs <;> exact .rfl' rfl rfl rfl rfl rfl rfl

theorem IdChange.issued_le {s s' : Sched} (h : IdChange s s') : s.issued ≤ s'.issued := by
  cases h <;> omega

theorem count_map_filter_ne (l : List Task) (id b : Nat) :
    ((l.filter (·.taskId ≠ id)).map Task.taskId).count b =
      if b = id then 0 else (l.map Task.taskId).count b := by
  induction l with
  | nil => simp
  | cons t l ih =>
    by_cases ht : t.taskId = id <;> by_cases hb : b = id <;>
      simp_all [List.filter_cons, List.count_cons]

/-- Ids that only lose occurrences, under the same counter, keep the invariant. -/
theorem IdInv.of_subperm {s s' : Sched} (h : IdInv s)
    (hsub : (s'.cancelled ++ s'.ids).Subperm (s.cancelled ++ s.ids)) (hi : s'.issued = s.issued)
    (hn : s'.nextTaskId = s.nextTaskId) : IdInv s' := by
  obtain ⟨l, hp, hl⟩ := hsub
  exact ⟨hp.nodup_iff.1 (h.nodup.sublist hl),
    fun id hid => hi ▸ h.lt id (hl.subset (hp.symm.subset hid)), hi ▸ hn ▸ h.next⟩

theorem IdInv.change {s s' : Sched} (h : IdInv s) (hc : IdChange s s')
    (hfew : s'.issued < 2 ^ 64) : IdInv s' := by
  cases hc with
  | same hp hx hi hn =>
    refine h.of_subperm (List.Perm.subperm ?_) hi hn
    rw [hx, ids_eq, ids_eq]
    exact (hp.map _).append_left _
  | issue t htid hp hx hi hn =>
    obtain ⟨hnd, hlt, hnext⟩ := h
    have hfresh : t.taskId = s.issued := by rw [htid, hnext, Nat.mod_eq_of_lt (by omega)]
    have hp' : (s'.cancelled ++ s'.ids).Perm (s.cancelled ++ s.ids ++ [s.issued]) := by
      rw [hx, ids_eq, ids_eq, List.append_assoc, ← hfresh]
      simpa using (hp.map Task.taskId).append_left s.cancelled
    refine ⟨hp'.nodup_iff.2 (List.nodup_append.2 ⟨hnd, List.nodup_singleton _, ?_⟩),
      fun id hid => ?_, ?_⟩
    · intro a ha hb
      rw [List.mem_singleton] at hb
      exact absurd (hlt a ha) (by omega)
    · rcases List.mem_append.1 (hp'.subset hid) with h1 | h1
      · have := hlt id h1; omega
      · rw [List.mem_singleton] at h1; omega
    · rw [hn, hi, hnext, Nat.mod_eq_of_lt (by omega : s.issued < 2 ^ 64)]
  | cancel id hp hcall hdisp hx hi hn =>
    refine h.of_subperm (List.subperm_ext_iff.2 fun b _ => ?_) hi hn
    -- the tasks with id `id` leave the heap; `id` joins `cancelled` only if one was there
    have hids : s'.ids.count b + (if b = id then (s.tasks.map Task.taskId).count b else 0) =
        s.ids.count b := by
      have h := (hp.map Task.taskId).count_eq b
      rw [count_map_filter_ne] at h
      simp only [ids, allTasks, hcall, hdisp, List.map_append, List.count_append] at h ⊢
      split_ifs at h ⊢ <;> omega
    rw [hx, List.count_append, List.count_append, List.count_append]
    by_cases hf : ∃ t ∈ s.tasks, t.taskId = id
    · obtain ⟨t, htm, rfl⟩ := hf
      have hpos := List.count_pos_iff.2 (List.mem_map_of_mem Task.taskId htm)
      rw [if_pos ⟨t, htm, rfl⟩, List.count_singleton]
      by_cases hb : b = t.taskId
      · subst hb
        simp only [beq_self_eq_true, if_true] at hids ⊢
        omega
      · simp only [hb, if_false, beq_eq_false_iff_ne.2 (Ne.symm hb), Bool.false_eq_true]
          at hids ⊢
        omega
    · rw [if_neg hf, List.count_nil]
      split_ifs at hids <;> omega

theorem idInv_init (n m : Nat) (t0 : Int) : IdInv (init n m t0) := by
  have : (List.replicate m Caller.idle).filterMap Caller.held = [] := by
    simp [List.filterMap_replicate, Caller.held]
  exact ⟨by simp [init, ids, allTasks, this], by simp [init, ids, allTasks, this], rfl⟩

theorem Reachable.idInv {n m : Nat} {t0 : Int} {s : Sched} (h : Reachable n m t0 s)
    (hfew : s.issued < 2 ^ 64) : IdInv s := by
  induction h with
  | init => exact idInv_init n m t0
  | @step s _ a ih =>
    have hc := idChange_act s a
    exact (ih (lt_of_le_of_lt hc.issued_le hfew)).change hc hfew

/-- `PriorityScheduler` along any interleaving of `schedule*`, `cancel`, worker steps, clock
ticks, wake-ups and shutdown, with any numbers of workers and callers, while fewer than
`2 ^ 64` ids were issued: (a) a worker dispatches a task only when it is due, and no task
left pending outranks it; (b) no task is dispatched twice; (c) `cancel(id)` returns `true`
exactly when a pending task has the id, and leaves pending exactly the other tasks;
(d) a task whose cancel returned `true` is never dispatched, and cancelling it again
returns `false`. -/
theorem dispatch_cancel_safety {n m : Nat} {t0 : Int} {s : Sched} (h : Reachable n m t0 s)
    (hfew : s.issued < 2 ^ 64) :
    (∀ w t, (s.workerStep w).2 = some t →
        t.scheduleTime ≤ s.now ∧ ∀ u ∈ (s.workerStep w).1.tasks, ¬ u.Outranks t) ∧
    (s.dispatched.map Task.taskId).Nodup ∧
    (∀ id, ((s.cancel id).1 = true ↔ ∃ t ∈ s.tasks, t.taskId = id) ∧
      (s.cancel id).2.tasks.Perm (s.tasks.filter (·.taskId ≠ id))) ∧
    (∀ id ∈ s.cancelled, id ∉ s.dispatched.map Task.taskId ∧ (s.cancel id).1 = false) := by
  have hinv := h.idInv hfew
  have hids : s.ids = s.tasks.map Task.taskId ++
      (s.callers.filterMap Caller.held).map Task.taskId ++ s.dispatched.map Task.taskId := by
    simp [ids, allTasks]
  refine ⟨fun w t hd => ?_, ?_, cancel_spec s, fun id hid => ?_⟩
  · obtain ⟨htop, hdue, hpop⟩ := workerStep_dispatch hd
    rw [hpop] at *
    exact ⟨hdue, fun u hu => top_not_outranked htop u (List.mem_of_mem_erase hu)⟩
  · have := (List.nodup_append.1 hinv.nodup).2.1
    rw [hids] at this
    exact (List.nodup_append.1 this).2.1
  · have hnot := (List.nodup_append.1 hinv.nodup).2.2 hid
    rw [hids] at hnot
    refine ⟨fun hd => hnot (List.mem_append_right _ hd), ?_⟩
    by_contra hc
    obtain ⟨t, ht, rfl⟩ := (cancel_spec s id).1.1 (by simpa using hc)
    exact hnot (List.mem_append_left _ (List.mem_append_left _ (List.mem_map_of_mem _ ht)))

theorem dispatch_cancel_safety_delayTrace :
    let s := run (init 1 1 0) delayTrace
    Reachable 1 1 0 s ∧ s.issued < 2 ^ 64 ∧
    ((∀ w t, (s.workerStep w).2 = some t →
        t.scheduleTime ≤ s.now ∧ ∀ u ∈ (s.workerStep w).1.tasks, ¬ u.Outranks t) ∧
    (s.dispatched.map Task.taskId).Nodup ∧
    (∀ id, ((s.cancel id).1 = true ↔ ∃ t ∈ s.tasks, t.taskId = id) ∧
      (s.cancel id).2.tasks.Perm (s.tasks.filter (·.taskId ≠ id))) ∧
    (∀ id ∈ s.cancelled, id ∉ s.dispatched.map Task.taskId ∧ (s.cancel id).1 = false)) :=
  have h := reachable_run 1 1 0 delayTrace
  ⟨h, by decide, dispatch_cancel_safety h (by decide)⟩

/-! ## Shutdown

A task leaves the heap only when a worker dispatches it or a `cancel` finds its id
(`act_keeps`), and a worker returns only when `stop_` is set and the heap is empty
(`exited_act`).  So the workers go on dispatching after `~PriorityScheduler` sets `stop_`,
and every task in the heap at that moment is dispatched, once due, or cancelled before any
worker returns (`pending_tasks_run_before_exit`). -/

@[simp] theorem scheduleAt_frame (s : Sched) (c : Nat) (time priority : Int) :
    (s.scheduleAt c time priority).tasks = s.tasks ∧
    (s.scheduleAt c time priority).stop = s.stop ∧
    (s.scheduleAt c time priority).now = s.now ∧
    (s.scheduleAt c time priority).workers = s.workers ∧
    (s.scheduleAt c time priority).destructor = s.destructor ∧
    (s.scheduleAt c time priority).dispatched = s.dispatched ∧
    (s.scheduleAt c time priority).cancelled = s.cancelled := by
  unfold scheduleAt; split <;> simp

@[simp] theorem pushStep_frame (s : Sched) (c : Nat) :
    (s.pushStep c).stop = s.stop ∧ (s.pushStep c).now = s.now ∧
    (s.pushStep c).workers = s.workers ∧ (s.pushStep c).destructor = s.destructor ∧
    (s.pushStep c).dispatched = s.dispatched ∧ (s.pushStep c).cancelled = s.cancelled := by
  unfold pushStep; split <;> simp

@[simp] theorem notifyOne_frame (s : Sched) (c w : Nat) :
    (s.notifyOne c w).tasks = s.tasks ∧ (s.notifyOne c w).stop = s.stop ∧
    (s.notifyOne c w).now = s.now ∧ (s.notifyOne c w).destructor = s.destructor ∧
    (s.notifyOne c w).dispatched = s.dispatched ∧
    (s.notifyOne c w).cancelled = s.cancelled := by
  unfold notifyOne; split <;> (try split_ifs) <;> simp

@[simp] theorem cancel_frame (s : Sched) (id : Nat) :
    (s.cancel id).2.stop = s.stop ∧ (s.cancel id).2.now = s.now ∧
    (s.cancel id).2.workers = s.workers ∧ (s.cancel id).2.destructor = s.destructor ∧
    (s.cancel id).2.dispatched = s.dispatched := by
  simp [cancel]

@[simp] theorem workerStep_stop (s : Sched) (w : Nat) :
    (s.workerStep w).1.stop = s.stop ∧ (s.workerStep w).1.now = s.now ∧
    (s.workerStep w).1.destructor = s.destructor := by
  unfold workerStep; split <;> simp

theorem pushStep_tasks_superset (s : Sched) (c : Nat) : s.tasks ⊆ (s.pushStep c).tasks := by
  unfold pushStep; split <;> simp [push]

theorem cancel_keeps {s : Sched} {id : Nat} {t : Task} (ht : t ∈ s.tasks) :
    t ∈ (s.cancel id).2.tasks ∨ t.taskId ∈ (s.cancel id).2.cancelled := by
  obtain ⟨h1, h2⟩ := cancel_spec s id
  by_cases hid : t.taskId = id
  · have hf : (s.cancel id).1 = true := h1.2 ⟨t, ht, hid⟩
    simp only [cancel] at hf ⊢
    simp [hf, hid]
  · exact .inl (h2.symm.subset (List.mem_filter.2 ⟨ht, by simpa using hid⟩))

theorem cancel_extends_cancelled (s : Sched) (id : Nat) :
    s.cancelled <+: (s.cancel id).2.cancelled := by
  simp only [cancel]
  split <;> simp

/-- Neither the dispatched tasks nor the cancelled ids are ever forgotten. -/
theorem act_extends_records (s : Sched) (a : Act) :
    s.dispatched <+: (s.act a).dispatched ∧ s.cancelled <+: (s.act a).cancelled := by
  cases a with
  | cancel id => simpa [act] using cancel_extends_cancelled s id
  | work w =>
    obtain ⟨-, hx, -, -, hd, -⟩ := workerStep_frame s w
    simp [act, hd, hx]
  | _ => simp [act, apply_ite]

/-- A task leaves the heap only when a worker dispatches it or a `cancel` finds its id. -/
theorem act_keeps {s : Sched} {t : Task} (a : Act) (ht : t ∈ s.tasks) :
    t ∈ (s.act a).tasks ∨ t ∈ (s.act a).dispatched ∨ t.taskId ∈ (s.act a).cancelled := by
  cases a with
  | push c => exact .inl (pushStep_tasks_superset s c ht)
  | cancel id => rcases @cancel_keeps s id t ht with h | h <;> simp [act, h]
  | work w =>
    obtain ⟨-, -, -, -, hd, htk⟩ := workerStep_frame s w
    simp only [act, hd, htk]
    cases (s.workerStep w).2 with
    | none => exact .inl ht
    | some u =>
      by_cases htu : t = u
      · simp [htu]
      · exact .inl (by simpa [pop] using List.mem_erase_of_ne htu |>.mpr ht)
  | _ => exact .inl (by simpa [act, apply_ite] using ht)

theorem check_exited {s : Sched} (h : s.check.1 = .exited) : s.stop = true ∧ s.tasks = [] := by
  unfold check at h
  split_ifs at h with h1 h2
  · simpa using h2
  · split at h
    · split_ifs at h
    · cases h

/-- A worker returns only when `stop_` is set and the heap is empty. -/
theorem exited_act {s : Sched} {a : Act} (h : Worker.exited ∈ (s.act a).workers) :
    Worker.exited ∈ s.workers ∨ s.stop = true ∧ s.tasks = [] := by
  cases a with
  | work w =>
    simp only [act, workerStep] at h
    split at h
    · exact (List.mem_or_eq_of_mem_set h).imp id fun h => check_exited h.symm
    · exact (List.mem_or_eq_of_mem_set h).imp id fun h => check_exited h.symm
    · exact .inl ((List.mem_or_eq_of_mem_set h).resolve_right (by simp))
    · exact .inl h
  | notify c w =>
    simp only [act, notifyOne] at h
    split at h
    · split_ifs at h
      · exact .inl ((List.mem_or_eq_of_mem_set h).resolve_right (by simp))
      all_goals exact .inl h
    · exact .inl h
  | wakeSpuriously w =>
    simp only [act] at h
    split_ifs at h
    · exact .inl ((List.mem_or_eq_of_mem_set h).resolve_right (by simp))
    · exact .inl h
  | notifyAll =>
    simp only [act] at h
    split_ifs at h
    · obtain ⟨w, hw, he⟩ := List.mem_map.mp h
      cases w <;> simp_all [wakeAll]
    · exact .inl h
  | setStop => simp only [act] at h; split_ifs at h <;> exact .inl h
  | _ => exact .inl (by simpa [act] using h)

theorem stop_act {s : Sched} (h : s.stop = true) (a : Act) : (s.act a).stop = true := by
  cases a <;> simp [act, apply_ite, h]

theorem alive_act {s : Sched} {a : Act} (h : (s.act a).destructor = .alive) :
    s.destructor = .alive ∧ (s.act a).stop = s.stop := by
  cases a with
  | wakeSpuriously w => simp only [act] at h ⊢; split_ifs at h ⊢ <;> simp_all
  | setStop => simp only [act] at h ⊢; split_ifs at h ⊢; simp_all
  | notifyAll => simp only [act] at h ⊢; split_ifs at h ⊢; simp_all
  | _ => simp_all [act]

theorem now_le_act (s : Sched) (a : Act) : s.now ≤ (s.act a).now := by
  cases a with
  | tick d => simp only [act]; omega
  | _ => simp [act, apply_ite]

/-- Only a worker's step dispatches. -/
theorem act_dispatched (s : Sched) (a : Act) :
    (s.act a).dispatched = s.dispatched ∨ ∃ w, a = .work w := by
  cases a with
  | work w => exact .inr ⟨w, rfl⟩
  | _ => left; simp [act, apply_ite]

/-- What holds of every reachable state: `stop_` is false until the destructor sets it, a
worker returns only after that, and a dispatched task was due. -/
structure StopInv (s : Sched) : Prop where
  alive : s.destructor = .alive → s.stop = false
  exited : Worker.exited ∈ s.workers → s.stop = true
  due : ∀ u ∈ s.dispatched, u.scheduleTime ≤ s.now

theorem StopInv.act {s : Sched} (h : StopInv s) (a : Act) : StopInv (s.act a) where
  alive hd := (alive_act hd).2.trans (h.alive (alive_act hd).1)
  exited he := (exited_act he).elim (fun he => stop_act (h.exited he) a) fun he => stop_act he.1 a
  due u hu := by
    have hle := now_le_act s a
    rcases act_dispatched s a with hd | ⟨w, rfl⟩
    · exact (h.due u (hd ▸ hu)).trans hle
    obtain ⟨-, -, -, -, hd, -⟩ := workerStep_frame s w
    rcases List.mem_append.mp (hd ▸ hu : u ∈ s.dispatched ++ (s.workerStep w).2.toList)
      with hu | hu
    · exact (h.due u hu).trans hle
    cases hw : (s.workerStep w).2 with
    | none => simp [hw] at hu
    | some v =>
      rw [hw, Option.toList, List.mem_singleton] at hu
      subst hu
      exact (workerStep_dispatch hw).2.1.trans hle

theorem Reachable.stopInv {n m : Nat} {t0 : Int} {s : Sched} (h : Reachable n m t0 s) :
    StopInv s := by
  induction h with
  | init => exact ⟨fun _ => rfl, by simp [Sched.init], by simp [Sched.init]⟩
  | step _ a ih => exact ih.act a

theorem StopInv.run {s : Sched} (h : StopInv s) (acts : List Act) : StopInv (s.run acts) := by
  induction acts generalizing s with
  | nil => exact h
  | cons a acts ih => exact ih (h.act a)

/-- Over any schedule, a task that is pending, dispatched or cancelled stays so, and once a
worker has returned it is dispatched or cancelled. -/
theorem run_handled {t : Task} {s : Sched}
    (hq : t ∈ s.tasks ∨ t ∈ s.dispatched ∨ t.taskId ∈ s.cancelled)
    (hx : Worker.exited ∈ s.workers → t ∈ s.dispatched ∨ t.taskId ∈ s.cancelled)
    (acts : List Act) (he : Worker.exited ∈ (s.run acts).workers) :
    t ∈ (s.run acts).dispatched ∨ t.taskId ∈ (s.run acts).cancelled := by
  induction acts generalizing s with
  | nil => exact hx he
  | cons a acts ih =>
    have hkeep : ∀ {s : Sched} (a : Act), t ∈ s.dispatched ∨ t.taskId ∈ s.cancelled →
        t ∈ (s.act a).dispatched ∨ t.taskId ∈ (s.act a).cancelled := fun a h =>
      h.imp (fun h => (act_extends_records _ a).1.subset h)
        fun h => (act_extends_records _ a).2.subset h
    refine ih ?_ (fun he' => ?_) he
    · rcases hq with hq | hq
      · exact act_keeps a hq
      · exact .inr (hkeep a hq)
    · rcases exited_act he' with he' | ⟨-, hnil⟩
      · exact hkeep a (hx he')
      · exact hkeep a (hq.resolve_left (by simp [hnil]))

/-- The workers keep dispatching after `~PriorityScheduler` sets `stop_`: by the time any
worker returns, every task that was in the heap when `stop_` was set, due or delayed, has
been dispatched, with its schedule time reached, or cancelled. -/
theorem pending_tasks_run_before_exit {n m : Nat} {t0 : Int} {s : Sched}
    (h : Reachable n m t0 s) (halive : s.destructor = .alive) {t : Task} (ht : t ∈ s.tasks)
    (acts : List Act) (hex : Worker.exited ∈ ((s.act .setStop).run acts).workers) :
    (t ∈ ((s.act .setStop).run acts).dispatched ∧
        t.scheduleTime ≤ ((s.act .setStop).run acts).now) ∨
      t.taskId ∈ ((s.act .setStop).run acts).cancelled := by
  have hi := h.stopInv
  have hs : (s.act .setStop) = { s with stop := true, destructor := .stopping } := by
    simp [act, halive]
  have hr : t ∈ ((s.act .setStop).run acts).dispatched ∨
      t.taskId ∈ ((s.act .setStop).run acts).cancelled :=
    run_handled (by simp [hs, ht]) (fun he => by
      have := hi.alive halive
      simp [hs] at he
      simp [hi.exited he] at this) acts hex
  exact hr.imp_left fun hd => ⟨hd, ((hi.act .setStop).run acts).due t hd⟩

/-- `stopTrace` up to the destructor's step, then the destructor's steps and `drainTrace`. -/
theorem pending_tasks_run_before_exit_stopTrace :
    Reachable 1 1 0 (run (init 1 1 0) (stopTrace.take 6)) ∧
      (run (init 1 1 0) (stopTrace.take 6)).destructor = .alive ∧
      (⟨0, 100, 1⟩ : Task) ∈ (run (init 1 1 0) (stopTrace.take 6)).tasks ∧
      Worker.exited ∈ (((run (init 1 1 0) (stopTrace.take 6)).act .setStop).run
        (.notifyAll :: drainTrace)).workers ∧
      (((⟨0, 100, 1⟩ : Task) ∈ (((run (init 1 1 0) (stopTrace.take 6)).act .setStop).run
          (.notifyAll :: drainTrace)).dispatched ∧
        (⟨0, 100, 1⟩ : Task).scheduleTime ≤ (((run (init 1 1 0) (stopTrace.take 6)).act
          .setStop).run (.notifyAll :: drainTrace)).now) ∨
        (⟨0, 100, 1⟩ : Task).taskId ∈ (((run (init 1 1 0) (stopTrace.take 6)).act .setStop).run
          (.notifyAll :: drainTrace)).cancelled) :=
  ⟨reachable_run _ _ _ _, by decide, by decide, by decide,
    pending_tasks_run_before_exit (reachable_run _ _ _ _) (by decide) (by decide) _ (by decide)⟩

end Sched

end Scheduler
end AsyncToolkit
