import Mathlib.Data.Int.Order.Basic
import Mathlib.Data.List.Basic

/-!
# async_toolkit: the timers of the event loop

This module models the timer heap of `reactor::EventLoop` of
`include/async_toolkit/reactor/event_loop.hpp`: `register_timer` and the loop of
`process_timers`.

**State.**  A `Timer` without its callable: `deadline`, `period` (the delay it was
registered with) and `periodic`, and the callback's name.  Clock readings and
durations are integers of one unit; the overflow of `steady_clock::time_point` is
not modelled.  `timers_` is a `std::priority_queue` ordered by `std::greater`, so its
`top()` is a timer of least deadline (`earliest`; among equal deadlines the first in
list order, the library's choice being unspecified).

**Loop.**  `process_timers` reads `now` once, then runs
`while (!timers_.empty() && timers_.top().deadline <= now)`: pop the top, run its
callback with the mutex released, and push it back `period` later if it is periodic.
Callbacks return and register no timers, so a callback is an entry of the list of
fired callbacks.  `processTimers now fuel` evaluates the loop condition at most
`fuel` times and is `none` when that was not enough.

**Results.**
* `processTimers_none_of_stuck`: while a due periodic timer has a period `≤ 0`,
  every iteration leaves one in the heap, so the loop never returns.
* `processTimers_some_of_shots`: otherwise each iteration uses one of the timers'
  remaining due firings (`shots`), so the loop returns after at most their sum, with
  no due timer left.
-/

namespace AsyncToolkit
namespace Reactor

/-- `EventLoop::Timer` without its callable; `callback` names it. -/
structure Timer where
  deadline : Int
  period : Int
  periodic : Bool
  callback : Nat
  deriving DecidableEq, Repr

/-- `timers_.top()` of a `std::priority_queue<Timer, _, std::greater<Timer>>`: a timer of
least deadline, the first such in list order. -/
def earliest : List Timer → Option Timer
  | [] => none
  | t :: ts =>
    match earliest ts with
    | none => some t
    | some u => if u.deadline < t.deadline then some u else some t

/-- `timers_.push(timer)`. -/
def push (t : Timer) (heap : List Timer) : List Timer := heap ++ [t]

/-- A call `register_timer(delay, callback, periodic)` made when the clock read `clock`. -/
structure Registration where
  clock : Int
  delay : Int
  periodic : Bool
  callback : Nat
  deriving DecidableEq, Repr

/-- The timer `register_timer` pushes: `{now + delay, callback, delay, periodic}`. -/
def Registration.timer (r : Registration) : Timer :=
  ⟨r.clock + r.delay, r.delay, r.periodic, r.callback⟩

/-- `register_timer`: push the timer under `timer_mutex_` (`notify_one` wakes nobody
here). -/
def registerTimer (r : Registration) (heap : List Timer) : List Timer := push r.timer heap

/-- The heap after the registrations `rs` (latest first) on a new loop. -/
def timersAfter (rs : List Registration) : List Timer := rs.foldr registerTimer []

/-- The body of the `while` loop for the top timer `t`: pop it, and push it back `period`
later if it is periodic. -/
def fire (t : Timer) (heap : List Timer) : List Timer :=
  if t.periodic then push { t with deadline := t.deadline + t.period } (heap.erase t)
  else heap.erase t

/-- `process_timers` at the clock reading `now`, with `fuel` evaluations of the loop
condition: the heap it leaves and the callbacks it ran, in order. -/
def processTimers (now : Int) : Nat → List Timer → List Nat → Option (List Timer × List Nat)
  | 0, _, _ => none
  | fuel + 1, heap, fired =>
    match earliest heap with
    | some t =>
      if t.deadline ≤ now then processTimers now fuel (fire t heap) (fired ++ [t.callback])
      else some (heap, fired)
    | none => some (heap, fired)

section Heap

theorem earliest_eq_none {heap : List Timer} : earliest heap = none ↔ heap = [] := by
  cases heap with
  | nil => exact ⟨fun _ => rfl, fun _ => rfl⟩
  | cons t ts =>
    simp only [earliest, reduceCtorEq, iff_false]
    split
    · exact Option.some_ne_none _
    · split <;> exact Option.some_ne_none _

/-- The top timer is in the heap, and no timer is due before it. -/
theorem earliest_spec {t : Timer} :
    ∀ {heap : List Timer}, earliest heap = some t → t ∈ heap ∧ ∀ u ∈ heap, t.deadline ≤ u.deadline
  | [], h => by cases h
  | t' :: ts, h => by
    simp only [earliest] at h
    split at h
    · rename_i hn
      cases h
      rw [earliest_eq_none.1 hn]
      exact ⟨List.mem_singleton_self _, fun u hu => by rw [List.mem_singleton.1 hu]⟩
    · rename_i u hu
      obtain ⟨hmem, hle⟩ := earliest_spec hu
      split at h <;> cases h
      · exact ⟨List.mem_cons_of_mem _ hmem, fun v hv => by
          rcases List.mem_cons.1 hv with rfl | hv
          · exact le_of_lt ‹_›
          · exact hle v hv⟩
      · exact ⟨List.mem_cons_self _ _, fun v hv => by
          rcases List.mem_cons.1 hv with rfl | hv
          · exact le_refl _
          · exact le_trans (not_lt.1 ‹_›) (hle v hv)⟩

theorem earliest_of_mem {t : Timer} {heap : List Timer} (h : t ∈ heap) :
    ∃ u, earliest heap = some u ∧ u.deadline ≤ t.deadline := by
  cases hu : earliest heap with
  | none => rw [earliest_eq_none.1 hu] at h; cases h
  | some u => exact ⟨u, rfl, (earliest_spec hu).2 t h⟩

theorem mem_fire_of_ne {t u : Timer} {heap : List Timer} (hne : t ≠ u) (h : t ∈ heap) :
    t ∈ fire u heap := by
  have : t ∈ heap.erase u := (List.mem_erase_of_ne hne).2 h
  unfold fire push
  split
  · exact List.mem_append_left _ this
  · exact this

theorem mem_fire_rearmed {u : Timer} {heap : List Timer} (h : u.periodic = true) :
    { u with deadline := u.deadline + u.period } ∈ fire u heap := by
  simp [fire, push, h]

theorem mem_of_mem_fire {t u : Timer} {heap : List Timer} (h : t ∈ fire u heap) :
    t ∈ heap ∨ (u.periodic = true ∧ t = { u with deadline := u.deadline + u.period }) := by
  unfold fire push at h
  split at h
  · rcases List.mem_append.1 h with h | h
    · exact .inl (List.mem_of_mem_erase h)
    · exact .inr ⟨‹_›, List.mem_singleton.1 h⟩
  · exact .inl (List.mem_of_mem_erase h)

end Heap

section Diverge

variable (now : Int)

/-- A due periodic timer whose re-arming does not move it forward. -/
def Stuck (heap : List Timer) : Prop :=
  ∃ t ∈ heap, t.periodic = true ∧ t.deadline ≤ now ∧ t.period ≤ 0

/-- Firing any timer leaves a stuck timer in the heap: another one stays, and the stuck
one is pushed back no later than it was. -/
theorem Stuck.fire {heap : List Timer} (h : Stuck now heap) (u : Timer) :
    Stuck now (fire u heap) := by
  obtain ⟨t, ht, hp, hd, hper⟩ := h
  by_cases htu : t = u
  · subst htu
    exact ⟨_, mem_fire_rearmed hp, hp, by simp only; omega, hper⟩
  · exact ⟨t, mem_fire_of_ne htu ht, hp, hd, hper⟩

/-- While a timer is stuck the loop condition holds at every evaluation, so no fuel is
enough. -/
theorem processTimers_none_of_stuck :
    ∀ (fuel : Nat) (heap : List Timer) (fired : List Nat), Stuck now heap →
      processTimers now fuel heap fired = none
  | 0, _, _, _ => rfl
  | fuel + 1, heap, fired, h => by
    have ⟨t, ht, _, hd, _⟩ := h
    obtain ⟨u, hu, hut⟩ := earliest_of_mem ht
    simp only [processTimers, hu, if_pos (le_trans hut hd)]
    exact processTimers_none_of_stuck fuel _ _ (h.fire now u)

end Diverge

section Terminate

variable (now : Int)

/-- Every due periodic timer moves forward when re-armed. -/
def Advancing (heap : List Timer) : Prop :=
  ∀ t ∈ heap, t.periodic = true → t.deadline ≤ now → 0 < t.period

/-- The firings left to timer `t` at the clock reading `now`: none if it is not due, one
if it is due and one-shot, and one per period up to `now` if it is periodic. -/
def shots (t : Timer) : Nat :=
  if t.deadline ≤ now then (if t.periodic then ((now - t.deadline) / t.period).toNat + 1 else 1)
  else 0

/-- The firings left to all the timers of a heap. -/
def firings : List Timer → Nat
  | [] => 0
  | t :: ts => shots now t + firings ts

theorem firings_append (a b : List Timer) : firings now (a ++ b) = firings now a + firings now b := by
  induction a with
  | nil => simp [firings]
  | cons t ts ih => rw [List.cons_append, firings, firings, ih]; omega

theorem firings_erase {u : Timer} {heap : List Timer} (h : u ∈ heap) :
    shots now u + firings now (heap.erase u) = firings now heap := by
  induction heap with
  | nil => cases h
  | cons t ts ih =>
    by_cases htu : t = u
    · subst htu
      simp [firings]
    · have hu : u ∈ ts := (List.mem_cons.1 h).resolve_left (Ne.symm htu)
      rw [List.erase_cons_tail (by simpa using htu), firings, firings, ← ih hu]
      omega

/-- A due periodic timer re-armed one period later has one firing fewer. -/
theorem shots_rearmed {t : Timer} (hp : t.periodic = true) (hd : t.deadline ≤ now)
    (hper : 0 < t.period) :
    shots now { t with deadline := t.deadline + t.period } + 1 = shots now t := by
  have hq : (now - (t.deadline + t.period)) / t.period = (now - t.deadline) / t.period - 1 := by
    rw [show now - (t.deadline + t.period) = now - t.deadline + (-1) * t.period by omega,
      Int.add_mul_ediv_right _ _ (by omega)]
    omega
  simp only [shots, if_pos hd, hp, if_true]
  by_cases hd' : t.deadline + t.period ≤ now
  · have h0 : 0 ≤ (now - (t.deadline + t.period)) / t.period :=
      Int.ediv_nonneg (by omega) (by omega)
    rw [if_pos hd']
    omega
  · have h0 : (now - t.deadline) / t.period = 0 := Int.ediv_eq_zero_of_lt (by omega) (by omega)
    rw [if_neg hd', h0]
    rfl

/-- One iteration uses exactly one firing. -/
theorem shots_fire {u : Timer} {heap : List Timer} (hmem : u ∈ heap) (hd : u.deadline ≤ now)
    (hadv : Advancing now heap) :
    firings now (fire u heap) + 1 = firings now heap := by
  rw [← firings_erase now hmem]
  unfold fire
  by_cases hp : u.periodic = true
  · rw [if_pos hp, push, firings_append, firings, firings, ← shots_rearmed now hp hd (hadv u hmem hp hd)]
    omega
  · rw [if_neg hp]
    simp only [shots, if_pos hd, hp, if_false, Bool.false_eq_true]
    omega

/-- Firing a due timer keeps every due periodic timer advancing: the re-armed one keeps
its period. -/
theorem Advancing.fire {heap : List Timer} (h : Advancing now heap) {u : Timer} (hu : u ∈ heap)
    (hd : u.deadline ≤ now) : Advancing now (fire u heap) := fun t ht hp ht' => by
  rcases mem_of_mem_fire ht with ht | ⟨hpu, rfl⟩
  · exact h t ht hp ht'
  · exact h u hu hpu hd

/-- When no timer is stuck, the loop returns once its fuel exceeds the firings left, and
it leaves no due timer. -/
theorem processTimers_some_of_shots :
    ∀ (fuel : Nat) (heap : List Timer) (fired : List Nat), Advancing now heap →
      firings now heap < fuel →
      ∃ heap' fired', processTimers now fuel heap fired = some (heap', fired') ∧
        ∀ t ∈ heap', now < t.deadline
  | 0, _, _, _, h => absurd h (Nat.not_lt_zero _)
  | fuel + 1, heap, fired, hadv, hlt => by
    rw [processTimers]
    cases hu : earliest heap with
    | none => exact ⟨heap, fired, rfl, fun t ht => by rw [earliest_eq_none.1 hu] at ht; cases ht⟩
    | some u =>
      obtain ⟨hmem, hle⟩ := earliest_spec hu
      by_cases hd : u.deadline ≤ now
      · simp only [if_pos hd]
        exact processTimers_some_of_shots fuel _ _ (hadv.fire now hmem hd)
          (by have := shots_fire now hmem hd hadv; omega)
      · exact ⟨heap, fired, by simp only [if_neg hd], fun t ht => lt_of_lt_of_le (not_le.1 hd) (hle t ht)⟩

end Terminate

section Registrations

@[simp] theorem timersAfter_nil : timersAfter [] = [] := rfl

@[simp] theorem timersAfter_cons (r : Registration) (rs : List Registration) :
    timersAfter (r :: rs) = timersAfter rs ++ [r.timer] := rfl

theorem mem_timersAfter {t : Timer} {rs : List Registration} :
    t ∈ timersAfter rs ↔ ∃ r ∈ rs, r.timer = t := by
  induction rs with
  | nil => simp
  | cons r rs ih =>
    simp only [timersAfter_cons, List.mem_append, ih, List.mem_cons, List.not_mem_nil, or_false,
      exists_eq_or_imp]
    exact or_comm.trans (or_congr_left eq_comm)

/-- `process_timers` on the heap that the `register_timer` calls `rs` built returns, for
some number of iterations, exactly when none of the calls registered a periodic timer
that is due at `now` with a delay `≤ 0`. -/
theorem processTimers_returns_iff (now : Int) (rs : List Registration) :
    (∃ fuel r, processTimers now fuel (timersAfter rs) [] = some r) ↔
      ∀ r ∈ rs, r.periodic = true → r.clock + r.delay ≤ now → 0 < r.delay := by
  constructor
  · rintro ⟨fuel, res, h⟩ r hr hp hd
    by_contra hneg
    rw [processTimers_none_of_stuck now fuel _ _
      ⟨r.timer, mem_timersAfter.2 ⟨r, hr, rfl⟩, hp, hd, not_lt.1 hneg⟩] at h
    cases h
  · intro h
    have hadv : Advancing now (timersAfter rs) := fun t ht hp hd => by
      obtain ⟨r, hr, rfl⟩ := mem_timersAfter.1 ht
      exact h r hr hp hd
    obtain ⟨heap, fired, hrun, -⟩ := processTimers_some_of_shots now _ _ [] hadv (Nat.lt_succ_self _)
    exact ⟨_, _, hrun⟩

/-- `register_timer(0, f, true)` at 0: at `now = 0` the loop runs `f` at every
iteration and never returns. -/
example : processTimers 0 5 (timersAfter [⟨0, 0, true, 1⟩]) [] = none := by decide

/-- `register_timer(10, f, true)` at 0: at `now = 35` the loop runs `f` three times and
returns with the timer re-armed at 40. -/
example : processTimers 35 4 (timersAfter [⟨0, 10, true, 1⟩]) [] =
    some ([⟨40, 10, true, 1⟩], [1, 1, 1]) := by decide

end Registrations

end Reactor
end AsyncToolkit
