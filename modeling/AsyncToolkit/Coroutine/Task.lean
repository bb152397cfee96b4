import Mathlib.Logic.Function.Basic

/-!
# async_toolkit: coroutine tasks and their frames

This module models `coroutine::Task<T>` of `include/async_toolkit/coroutine/task.hpp`:
the coroutine frame a task owns, the move operations that hand a frame from one task to
another, the destructor, `get()` and `is_ready()`.

**Frames.**  A coroutine's body suspends some number of times and then ends, with
`co_return value` or with an exception that `unhandled_exception` stores in the promise.
`initial_suspend` is `suspend_never`, so calling the coroutine runs its body up to the first
suspension; `final_suspend` is `suspend_always`, so a body that has ended leaves its frame
suspended at the final suspend point, where `done()` holds, until `destroy()`.  A frame is
the number of resumptions still to run before the body ends, the body's outcome, and
whether it was destroyed.  `get()` moves the promise's `result` out; the moved-from value
is never read, since reading the promise again takes a resumption past the end.

**Objects.**  The heap holds the frames and the `Task` objects by address; a `Task` holds
`coro_`, a frame or `nullptr`.  Each call is one step.  A step stops with a `Fault` where the
code has undefined behaviour: a member function called where no `Task` lives; `resume()`,
`done()` or `destroy()` of a destroyed frame; `resume()` of a frame at its final suspend
point.

**Results.**  `Inv`: every frame not yet destroyed has exactly one owner, and no `Task`
points at a destroyed frame; every call keeps it.  So a call on a `Task` never reaches a
destroyed frame, and the only calls that stop are calls where no `Task` lives and `get()`
of a task whose `is_ready()` holds (`task_calls_fault_only_on_ready_get`): `get()` of a
task whose body has ended is undefined, and a task whose body never suspends has ended
when its call returns.  Once no `Task` is left, every frame has been destroyed
(`frames_destroyed_without_tasks`).
-/

namespace AsyncToolkit
namespace Coroutine

/-- An exception: one that a coroutine's body lets escape, or a `std::runtime_error`. -/
inductive Exn
  | thrown (id : Nat)
  | runtimeError (what : String)
  deriving DecidableEq, Repr

/-- What a coroutine's body does: it suspends `suspensions` times, then ends with
`co_return value` or an exception. -/
structure Body (α : Type) where
  suspensions : Nat
  outcome : Except Exn α

/-- A coroutine frame: `left`, the resumptions to run before the body ends (`0`: suspended
at `final_suspend`, where `done()` holds); the body's outcome; whether it is allocated. -/
structure Frame (α : Type) where
  left : Nat
  outcome : Except Exn α
  live : Bool

namespace Frame

variable {α : Type}

/-- `promise().exception`: set by `unhandled_exception` once the body has ended with one. -/
def exception (fr : Frame α) : Option Exn :=
  if fr.left = 0 then
    match fr.outcome with
    | .error e => some e
    | .ok _ => none
  else none

/-- `promise().result`: set by `return_value` once the body has returned; `none` is the
default-initialised `T` of a body that has not. -/
def result (fr : Frame α) : Option α :=
  if fr.left = 0 then fr.outcome.toOption else none

end Frame

/-- A `Task` object at an address (its `coro_`: a frame or `nullptr`), or none there. -/
inductive Obj
  | absent
  | task (coro : Option Nat)
  deriving DecidableEq, Repr

/-- The frames and the `Task` objects by address, and the next fresh addresses. -/
structure Heap (α : Type) where
  frames : Nat → Option (Frame α)
  objs : Nat → Obj
  nextFrame : Nat
  nextObj : Nat

/-- Where a call has undefined behaviour. -/
inductive Fault
  /-- A member function called where no `Task` lives. -/
  | noTask
  /-- `resume()`, `done()` or `destroy()` of a destroyed frame. -/
  | destroyedFrame
  /-- `resume()` of a coroutine suspended at its final suspend point. -/
  | resumeAtFinal
  deriving DecidableEq, Repr

namespace Heap

variable {α : Type}

/-- No frame and no `Task`. -/
def empty : Heap α := ⟨fun _ => none, fun _ => .absent, 0, 0⟩

/-- Overwrite frame `f`. -/
def setFrame (h : Heap α) (f : Nat) (fr : Frame α) : Heap α :=
  { h with frames := Function.update h.frames f (some fr) }

/-- Overwrite the object at `t`. -/
def setObj (h : Heap α) (t : Nat) (o : Obj) : Heap α :=
  { h with objs := Function.update h.objs t o }

/-- Construct an object at the next fresh address. -/
def place (h : Heap α) (o : Obj) : Heap α :=
  { h with objs := Function.update h.objs h.nextObj o, nextObj := h.nextObj + 1 }

/-- The `coro_` of the `Task` at `t`. -/
def task (h : Heap α) (t : Nat) : Except Fault (Option Nat) :=
  match h.objs t with
  | .task c => .ok c
  | .absent => .error .noTask

/-- Frame `f`, if it was not destroyed. -/
def frame (h : Heap α) (f : Nat) : Except Fault (Frame α) :=
  match h.frames f with
  | some fr => if fr.live then .ok fr else .error .destroyedFrame
  | none => .error .destroyedFrame

/-- `coro_.destroy()`. -/
def destroy (h : Heap α) (f : Nat) : Except Fault (Heap α) := do
  let fr ← h.frame f
  pure (h.setFrame f { fr with live := false })

/-- `coro_.resume()`: the body runs to its next suspension, or to its end. -/
def resume (h : Heap α) (f : Nat) : Except Fault (Heap α) := do
  let fr ← h.frame f
  if fr.left = 0 then throw .resumeAtFinal
  else pure (h.setFrame f { fr with left := fr.left - 1 })

/-- `if (coro_) coro_.destroy();` -/
def release (h : Heap α) : Option Nat → Except Fault (Heap α)
  | some f => h.destroy f
  | none => pure h

/-- Calling a coroutine function: `get_return_object` makes a `Task` owning a new frame,
and the body runs to its first suspension (`initial_suspend` is `suspend_never`). -/
def call (h : Heap α) (b : Body α) : Heap α :=
  (h.place (.task (some h.nextFrame))).setFrame h.nextFrame ⟨b.suspensions, b.outcome, true⟩
    |> fun h' => { h' with nextFrame := h.nextFrame + 1 }

/-- `Task()`: `coro_(nullptr)`. -/
def construct (h : Heap α) : Heap α := h.place (.task none)

/-- `Task(Task&& other)`: `coro_(other.coro_)`, then `other.coro_ = nullptr`. -/
def moveConstruct (h : Heap α) (o : Nat) : Except Fault (Heap α) := do
  let c ← h.task o
  pure ((h.place (.task c)).setObj o (.task none))

/-- `operator=(Task&& other)` on the `Task` at `t`. -/
def moveAssign (h : Heap α) (t o : Nat) : Except Fault (Heap α) := do
  let ct ← h.task t
  let co ← h.task o
  if t = o then pure h
  else do
    let h ← h.release ct
    pure ((h.setObj t (.task co)).setObj o (.task none))

/-- `~Task()`: `if (coro_) coro_.destroy();`, and the object is gone. -/
def destruct (h : Heap α) (t : Nat) : Except Fault (Heap α) := do
  let c ← h.task t
  let h ← h.release c
  pure (h.setObj t .absent)

/-- `is_ready()`: `coro_ && coro_.done()`. -/
def isReady (h : Heap α) (t : Nat) : Except Fault Bool := do
  match ← h.task t with
  | some f => return (← h.frame f).left == 0
  | none => return false

/-- `T get()`: resume the coroutine, then rethrow the promise's exception or return its
result; a `Task` without a coroutine throws. -/
def get (h : Heap α) (t : Nat) : Except Fault (Heap α × Except Exn (Option α)) := do
  match ← h.task t with
  | some f =>
    let h ← h.resume f
    let fr ← h.frame f
    match fr.exception with
    | some e => return (h, .error e)
    | none => return (h, .ok fr.result)
  | none => return (h, .error (.runtimeError "Task not initialized"))

end Heap

/-- `void Task<void>::get()`: resume the coroutine, then rethrow the promise's exception; a
`Task<void>` without a coroutine returns. -/
def Heap.getVoid (h : Heap Unit) (t : Nat) : Except Fault (Heap Unit × Option Exn) := do
  match ← h.task t with
  | some f =>
    let h ← h.resume f
    return (h, (← h.frame f).exception)
  | none => return (h, none)

/-- A call on the tasks of a program. -/
inductive Act (α : Type)
  | call (b : Body α)
  | construct
  | moveConstruct (o : Nat)
  | moveAssign (t o : Nat)
  | destruct (t : Nat)
  | get (t : Nat)
  | isReady (t : Nat)

namespace Heap

variable {α : Type}

/-- One call. -/
def step (h : Heap α) : Act α → Except Fault (Heap α)
  | .call b => pure (h.call b)
  | .construct => pure h.construct
  | .moveConstruct o => h.moveConstruct o
  | .moveAssign t o => h.moveAssign t o
  | .destruct t => h.destruct t
  | .get t => Prod.fst <$> h.get t
  | .isReady t => (fun _ => h) <$> h.isReady t

/-- The heaps a program reaches, call after call, from no task. -/
inductive Reachable : Heap α → Prop
  | empty : Reachable empty
  | step {h h' : Heap α} {a : Act α} : Reachable h → h.step a = .ok h' → Reachable h'

end Heap

/-! ## Evaluation -/

section Lemmas

variable {α : Type}

@[simp] theorem ok_bind {β γ : Type} (b : β) (g : β → Except Fault γ) :
    (Except.ok b >>= g) = g b := rfl

@[simp] theorem error_bind {β γ : Type} (e : Fault) (g : β → Except Fault γ) :
    (Except.error e >>= g : Except Fault γ) = .error e := rfl

@[simp] theorem pure_eq_ok {β : Type} (b : β) : (pure b : Except Fault β) = .ok b := rfl

@[simp] theorem ok_map {β γ : Type} (b : β) (g : β → γ) :
    (g <$> Except.ok b : Except Fault γ) = .ok (g b) := rfl

@[simp] theorem error_map {β γ : Type} (e : Fault) (g : β → γ) :
    (g <$> Except.error e : Except Fault γ) = .error e := rfl

theorem bind_eq_error {β γ : Type} {x : Except Fault β} {k : β → Except Fault γ} {e : Fault}
    (he : (x >>= k) = .error e) : x = .error e ∨ ∃ b, x = .ok b ∧ k b = .error e := by
  cases x with
  | error e' =>
    rw [error_bind] at he
    cases he
    exact .inl rfl
  | ok b => exact .inr ⟨b, rfl, he⟩

theorem map_eq_error {β γ : Type} {x : Except Fault β} {g : β → γ} {e : Fault}
    (he : (g <$> x) = .error e) : x = .error e := by
  cases x with
  | error e' =>
    rw [error_map] at he
    cases he
    rfl
  | ok b => cases he

theorem map_eq_ok {β γ : Type} {x : Except Fault β} {g : β → γ} {c : γ}
    (hc : (g <$> x) = .ok c) : ∃ b, x = .ok b ∧ g b = c := by
  cases x with
  | error e => cases hc
  | ok b => cases hc; exact ⟨b, rfl, rfl⟩

namespace Heap

variable (h : Heap α)

@[simp] theorem setFrame_frames (f : Nat) (fr : Frame α) :
    (h.setFrame f fr).frames = Function.update h.frames f (some fr) := rfl
@[simp] theorem setFrame_objs (f : Nat) (fr : Frame α) : (h.setFrame f fr).objs = h.objs := rfl
@[simp] theorem setFrame_nextFrame (f : Nat) (fr : Frame α) :
    (h.setFrame f fr).nextFrame = h.nextFrame := rfl
@[simp] theorem setFrame_nextObj (f : Nat) (fr : Frame α) :
    (h.setFrame f fr).nextObj = h.nextObj := rfl
@[simp] theorem setObj_objs (t : Nat) (o : Obj) :
    (h.setObj t o).objs = Function.update h.objs t o := rfl
@[simp] theorem setObj_frames (t : Nat) (o : Obj) : (h.setObj t o).frames = h.frames := rfl
@[simp] theorem setObj_nextFrame (t : Nat) (o : Obj) : (h.setObj t o).nextFrame = h.nextFrame :=
  rfl
@[simp] theorem setObj_nextObj (t : Nat) (o : Obj) : (h.setObj t o).nextObj = h.nextObj := rfl

theorem setObj_setObj_self (t : Nat) (o o' : Obj) :
    (h.setObj t o).setObj t o' = h.setObj t o' := by
  simp only [setObj, Function.update_idem]

/-- A new object is the next address made valid, then written. -/
theorem place_eq (o : Obj) : h.place o = ({ h with nextObj := h.nextObj + 1 }).setObj h.nextObj o :=
  rfl

variable {h}

theorem task_of {t : Nat} {c : Option Nat} (ht : h.objs t = .task c) : h.task t = .ok c := by
  simp [task, ht]

theorem task_of_absent {t : Nat} (ht : h.objs t = .absent) : h.task t = .error .noTask := by
  simp [task, ht]

/-- Reading `coro_` stops only where no `Task` lives. -/
theorem task_error {t : Nat} {e : Fault} (he : h.task t = .error e) : e = .noTask := by
  unfold task at he
  split at he <;> cases he
  rfl

theorem objs_of_task {t : Nat} {c : Option Nat} (ht : h.task t = .ok c) : h.objs t = .task c := by
  unfold task at ht
  split at ht <;> cases ht
  assumption

theorem frame_of {f : Nat} {fr : Frame α} (hf : h.frames f = some fr) (hl : fr.live = true) :
    h.frame f = .ok fr := by
  simp [frame, hf, hl]

theorem destroy_of {f : Nat} {fr : Frame α} (hf : h.frames f = some fr) (hl : fr.live = true) :
    h.destroy f = .ok (h.setFrame f { fr with live := false }) := by
  simp only [destroy, frame_of hf hl]
  rfl

theorem resume_of {f : Nat} {fr : Frame α} (hf : h.frames f = some fr) (hl : fr.live = true) :
    h.resume f = if fr.left = 0 then .error .resumeAtFinal
      else .ok (h.setFrame f { fr with left := fr.left - 1 }) := by
  simp only [resume, frame_of hf hl, ok_bind]
  split <;> rfl

end Heap

/-! ## Ownership -/

open Heap

/-- Every frame not yet destroyed has exactly one owning `Task`, no `Task` points at a
destroyed frame, and the addresses from the next fresh ones on are unused. -/
structure Inv (h : Heap α) : Prop where
  unique : ∀ {t t' f}, h.objs t = .task (some f) → h.objs t' = .task (some f) → t = t'
  owned : ∀ {t f}, h.objs t = .task (some f) → ∃ fr, h.frames f = some fr ∧ fr.live = true
  leak : ∀ {f fr}, h.frames f = some fr → fr.live = true → ∃ t, h.objs t = .task (some f)
  freshFrame : ∀ {f}, h.nextFrame ≤ f → h.frames f = none
  freshObj : ∀ {t}, h.nextObj ≤ t → h.objs t = .absent

theorem inv_empty : Inv (empty : Heap α) where
  unique h := nomatch h
  owned h := nomatch h
  leak h := nomatch h
  freshFrame _ := rfl
  freshObj _ := rfl

namespace Inv

variable {h : Heap α} (hi : Inv h)
include hi

theorem lt_nextFrame {f : Nat} {fr : Frame α} (hf : h.frames f = some fr) : f < h.nextFrame :=
  Nat.lt_of_not_le fun hle => by simp [hi.freshFrame hle] at hf

theorem lt_nextObj {t : Nat} {c : Option Nat} (ht : h.objs t = .task c) : t < h.nextObj :=
  Nat.lt_of_not_le fun hle => by simp [hi.freshObj hle] at ht

/-- A frame stays allocated while it is resumed. -/
theorem setFrame_live {f : Nat} {fr fr' : Frame α} (hf : h.frames f = some fr)
    (hl : fr.live = true) (hl' : fr'.live = true) : Inv (h.setFrame f fr') where
  unique := hi.unique
  owned {t g} ht := by
    by_cases hg : g = f
    · subst hg; exact ⟨fr', by simp, hl'⟩
    · simpa [Function.update_noteq hg] using hi.owned ht
  leak {g fr''} hg' hl'' := by
    by_cases hg : g = f
    · subst hg; exact hi.leak hf hl
    · rw [setFrame_frames, Function.update_noteq hg] at hg'
      exact hi.leak hg' hl''
  freshFrame {g} hg := by
    rw [setFrame_frames, Function.update_noteq (by have := hi.lt_nextFrame hf; simp at hg; omega)]
    exact hi.freshFrame hg
  freshObj := hi.freshObj

/-- The owner of frame `f` destroys it and then holds no frame. -/
theorem release {t f : Nat} {fr : Frame α} (ht : h.objs t = .task (some f))
    (hf : h.frames f = some fr) (o : Obj) (ho : ∀ g, o ≠ .task (some g)) :
    Inv ((h.setFrame f { fr with live := false }).setObj t o) where
  unique {t1 t2 g} h1 h2 := by
    simp only [setObj_objs, setFrame_objs, Function.update_apply] at h1 h2
    split_ifs at h1 h2
    all_goals first
      | exact absurd h1 (ho g)
      | exact absurd h2 (ho g)
      | exact hi.unique h1 h2
  owned {t1 g} h1 := by
    simp only [setObj_objs, setFrame_objs, Function.update_apply] at h1
    split_ifs at h1 with e1
    · exact absurd h1 (ho g)
    · have hg : g ≠ f := fun e => e1 (hi.unique h1 (e ▸ ht))
      simpa [Function.update_noteq hg] using hi.owned h1
  leak {g fr'} hg hl := by
    simp only [setObj_frames, setFrame_frames, Function.update_apply] at hg
    split_ifs at hg with e
    · cases hg; simp at hl
    · obtain ⟨t1, h1⟩ := hi.leak hg hl
      have ht1 : t1 ≠ t := by
        rintro rfl
        rw [ht, Obj.task.injEq, Option.some.injEq] at h1
        exact e h1.symm
      exact ⟨t1, by simpa [Function.update_noteq ht1] using h1⟩
  freshFrame {g} hg := by
    rw [setObj_frames, setFrame_frames, Function.update_noteq
      (by have := hi.lt_nextFrame hf; simp at hg; omega)]
    exact hi.freshFrame hg
  freshObj {t1} h1 := by
    rw [setObj_objs, setFrame_objs, Function.update_noteq
      (by have := hi.lt_nextObj ht; simp at h1; omega)]
    exact hi.freshObj h1

omit hi in
theorem transfer_objs {t o : Nat} {c : Option Nat} (hne : t ≠ o) {t1 g : Nat} :
    ((h.setObj t (.task c)).setObj o (.task none)).objs t1 = .task (some g) ↔
      (t1 = t ∧ c = some g) ∨ (t1 ≠ t ∧ t1 ≠ o ∧ h.objs t1 = .task (some g)) := by
  simp only [setObj_objs, Function.update_apply]
  split_ifs with e1 e2
  · subst e1; simp [Ne.symm hne]
  · subst e2; simp
  · simp [e1, e2]

/-- `t`, holding no frame, takes over the frame of `o`, which then holds none. -/
theorem transfer {t o : Nat} {c : Option Nat} (hne : t ≠ o) (ho : h.objs o = .task c)
    (ht : ∀ g, h.objs t ≠ .task (some g)) (htn : t < h.nextObj) :
    Inv ((h.setObj t (.task c)).setObj o (.task none)) where
  unique {t1 t2 g} h1 h2 := by
    rcases (transfer_objs hne).1 h1 with ⟨e1, hc1⟩ | ⟨-, e1, h1⟩ <;>
      rcases (transfer_objs hne).1 h2 with ⟨e2, hc2⟩ | ⟨-, e2, h2⟩
    · exact e1.trans e2.symm
    · exact absurd (hi.unique h2 (hc1 ▸ ho)) e2
    · exact absurd (hi.unique h1 (hc2 ▸ ho)) e1
    · exact hi.unique h1 h2
  owned {t1 g} h1 := by
    rcases (transfer_objs hne).1 h1 with ⟨-, rfl⟩ | ⟨-, -, h1⟩
    · exact hi.owned ho
    · exact hi.owned h1
  leak {g fr} hg hl := by
    obtain ⟨t1, h1⟩ := hi.leak hg hl
    by_cases e1 : t1 = o
    · subst e1
      rw [ho] at h1
      exact ⟨t, by simp [Function.update_noteq hne, h1]⟩
    · have e2 : t1 ≠ t := by rintro rfl; exact ht g h1
      exact ⟨t1, by simp [Function.update_noteq e1, Function.update_noteq e2, h1]⟩
  freshFrame := hi.freshFrame
  freshObj {t1} h1 := by
    rw [setObj_objs, setObj_objs, Function.update_noteq (by have := hi.lt_nextObj ho; simp at h1; omega),
      Function.update_noteq (by simp at h1; omega)]
    exact hi.freshObj h1

/-- A fresh address made valid. -/
theorem bump : Inv { h with nextObj := h.nextObj + 1 } :=
  { hi with freshObj := fun hle => hi.freshObj (by simp at hle; omega) }

/-- The frame of a new coroutine goes to the new `Task`. -/
theorem call (b : Body α) : Inv (h.call b) where
  unique {t1 t2 g} h1 h2 := by
    simp only [Heap.call, place, setFrame_objs, Function.update_apply] at h1 h2
    split_ifs at h1 h2 with e1 e2 e2
    · exact e1.trans e2.symm
    · cases h1
      obtain ⟨fr, hf, -⟩ := hi.owned h2
      simp [hi.freshFrame (Nat.le_refl _)] at hf
    · cases h2
      obtain ⟨fr, hf, -⟩ := hi.owned h1
      simp [hi.freshFrame (Nat.le_refl _)] at hf
    · exact hi.unique h1 h2
  owned {t1 g} h1 := by
    simp only [Heap.call, place, setFrame_objs, setFrame_frames, Function.update_apply] at h1 ⊢
    split_ifs at h1 with e1
    · cases h1; simp
    · obtain ⟨fr, hf, hl⟩ := hi.owned h1
      have : g ≠ h.nextFrame := fun e => by simp [e, hi.freshFrame (Nat.le_refl _)] at hf
      exact ⟨fr, by simp [this, hf], hl⟩
  leak {g fr} hg hl := by
    simp only [Heap.call, place, setFrame_objs, setFrame_frames, Function.update_apply] at hg ⊢
    split_ifs at hg with e1
    · exact ⟨h.nextObj, by simp [e1]⟩
    · obtain ⟨t1, h1⟩ := hi.leak hg hl
      have : t1 ≠ h.nextObj := fun e => by simp [e, hi.freshObj (Nat.le_refl _)] at h1
      exact ⟨t1, by simp [this, h1]⟩
  freshFrame {g} hg := by
    simp only [Heap.call, place, setFrame_frames] at hg ⊢
    rw [Function.update_noteq (by omega)]
    exact hi.freshFrame (by omega)
  freshObj {t1} h1 := by
    simp only [Heap.call, place, setFrame_objs, setFrame_nextObj] at h1 ⊢
    rw [Function.update_noteq (by omega)]
    exact hi.freshObj (by omega)

/-- `if (coro_) coro_.destroy();` of a `Task` destroys the frame it owns, if any. -/
theorem release_task {t : Nat} {c : Option Nat} (ht : h.objs t = .task c) :
    (c = none ∧ h.release c = .ok h) ∨ ∃ f fr, c = some f ∧ h.frames f = some fr ∧
      fr.live = true ∧ h.release c = .ok (h.setFrame f { fr with live := false }) := by
  cases c with
  | none => exact .inl ⟨rfl, rfl⟩
  | some f =>
    obtain ⟨fr, hf, hl⟩ := hi.owned ht
    exact .inr ⟨f, fr, rfl, hf, hl, destroy_of hf hl⟩

/-- An address that holds no frame gets an object that holds none. -/
theorem setObj_unowned {t : Nat} (ht : ∀ g, h.objs t ≠ .task (some g)) (htn : t < h.nextObj)
    (o : Obj) (ho : ∀ g, o ≠ .task (some g)) : Inv (h.setObj t o) where
  unique {t1 t2 g} h1 h2 := by
    simp only [setObj_objs, Function.update_apply] at h1 h2
    split_ifs at h1 h2
    all_goals first
      | exact absurd h1 (ho g)
      | exact absurd h2 (ho g)
      | exact hi.unique h1 h2
  owned {t1 g} h1 := by
    simp only [setObj_objs, Function.update_apply] at h1
    split_ifs at h1
    · exact absurd h1 (ho g)
    · exact hi.owned h1
  leak {g fr} hg hl := by
    obtain ⟨t1, h1⟩ := hi.leak hg hl
    have e : t1 ≠ t := by rintro rfl; exact ht g h1
    exact ⟨t1, by simp [Function.update_noteq e, h1]⟩
  freshFrame := hi.freshFrame
  freshObj {t1} h1 := by
    rw [setObj_objs, Function.update_noteq (by simp at h1; omega)]
    exact hi.freshObj h1

theorem moveConstruct {o : Nat} {h' : Heap α} (hs : h.moveConstruct o = .ok h') : Inv h' := by
  cases ho : h.objs o with
  | absent => simp [Heap.moveConstruct, task_of_absent ho] at hs
  | task c =>
    simp only [Heap.moveConstruct, task_of ho, ok_bind] at hs
    cases hs
    rw [place_eq]
    exact hi.bump.transfer (by have := hi.lt_nextObj ho; omega) ho
      (by simp [hi.freshObj (Nat.le_refl _)]) (Nat.lt_succ_self _)

theorem moveAssign {t o : Nat} {h' : Heap α} (hs : h.moveAssign t o = .ok h') : Inv h' := by
  cases ht : h.objs t with
  | absent => simp [Heap.moveAssign, task_of_absent ht] at hs
  | task ct =>
  cases ho : h.objs o with
  | absent => simp [Heap.moveAssign, task_of ht, task_of_absent ho] at hs
  | task co =>
  simp only [Heap.moveAssign, task_of ht, task_of ho, ok_bind] at hs
  split at hs
  · cases hs; exact hi
  · rename_i hne
    rcases hi.release_task ht with ⟨rfl, hr⟩ | ⟨f, fr, rfl, hf, -, hr⟩ <;>
      simp only [hr, ok_bind] at hs <;> cases hs
    · exact hi.transfer hne ho (by simp [ht]) (hi.lt_nextObj ht)
    · have h2 := hi.release ht hf (.task none) (by simp)
      rw [← setObj_setObj_self _ t (.task none)]
      exact h2.transfer hne (by simpa [Function.update_noteq (Ne.symm hne)] using ho) (by simp)
        (hi.lt_nextObj ht)

theorem destruct {t : Nat} {h' : Heap α} (hs : h.destruct t = .ok h') : Inv h' := by
  cases ht : h.objs t with
  | absent => simp [Heap.destruct, task_of_absent ht] at hs
  | task c =>
    simp only [Heap.destruct, task_of ht, ok_bind] at hs
    rcases hi.release_task ht with ⟨rfl, hr⟩ | ⟨f, fr, rfl, hf, -, hr⟩ <;>
      simp only [hr, ok_bind] at hs <;> cases hs
    · exact hi.setObj_unowned (by simp [ht]) (hi.lt_nextObj ht) .absent (by simp)
    · exact hi.release ht hf .absent (by simp)

end Inv

namespace Heap

variable {h : Heap α}

@[simp] theorem frame_setFrame_self {f : Nat} {fr : Frame α} (hl : fr.live = true) :
    (h.setFrame f fr).frame f = .ok fr := by
  simp [frame, hl]

/-- `get()` of a `Task` whose frame is allocated: it stops at the final suspend point, or
resumes the body once and reads the promise. -/
theorem get_of {t f : Nat} {fr : Frame α} (ht : h.objs t = .task (some f))
    (hf : h.frames f = some fr) (hl : fr.live = true) :
    h.get t = if fr.left = 0 then .error .resumeAtFinal
      else .ok (h.setFrame f { fr with left := fr.left - 1 },
        if fr.left = 1 then fr.outcome.map some else .ok none) := by
  simp only [get, task_of ht, ok_bind, resume_of hf hl]
  split
  · rfl
  · rcases Nat.lt_or_ge fr.left 2 with h2 | h2
    · have h1 : fr.left = 1 := by omega
      cases e : fr.outcome <;>
        simp [frame_setFrame_self, hl, Frame.exception, Frame.result, h1, e, Except.map,
          Except.toOption]
    · simp [frame_setFrame_self, hl, Frame.exception, Frame.result,
        show fr.left - 1 ≠ 0 by omega, show fr.left ≠ 1 by omega]

theorem get_null {t : Nat} (ht : h.objs t = .task none) :
    h.get t = .ok (h, .error (.runtimeError "Task not initialized")) := by
  simp [get, task_of ht]

/-- `Task<void>::get()` is `Task<T>::get()` with the value dropped, except on a `Task` without
a coroutine: there it returns where `Task<T>::get()` throws. -/
theorem getVoid_eq (h : Heap Unit) (t : Nat) :
    h.getVoid t = if h.objs t = .task none then .ok (h, none) else
      (fun p => (p.1, match p.2 with | .error e => some e | .ok _ => none)) <$> h.get t := by
  cases ht : h.objs t with
  | absent => simp [getVoid, get, task_of_absent ht]
  | task c =>
  cases c with
  | none => simp [getVoid, task_of ht]
  | some f =>
    rw [if_neg (by simp)]
    simp only [getVoid, get, task_of ht, ok_bind]
    cases h.resume f with
    | error e => rfl
    | ok h' =>
      simp only [ok_bind]
      cases h'.frame f with
      | error e => rfl
      | ok fr =>
        simp only [ok_bind]
        cases fr.exception <;> rfl

theorem isReady_of {t f : Nat} {fr : Frame α} (ht : h.objs t = .task (some f))
    (hf : h.frames f = some fr) (hl : fr.live = true) : h.isReady t = .ok (fr.left == 0) := by
  simp [isReady, task_of ht, frame_of hf hl]

theorem isReady_null {t : Nat} (ht : h.objs t = .task none) : h.isReady t = .ok false := by
  simp [isReady, task_of ht]

end Heap

/-- `get()` resumes a frame that stays allocated. -/
theorem Inv.get {h h' : Heap α} (hi : Inv h) {t : Nat} {r : Except Exn (Option α)}
    (hs : h.get t = .ok (h', r)) : Inv h' := by
  cases ht : h.objs t with
  | absent => simp [Heap.get, task_of_absent ht] at hs
  | task c =>
  cases c with
  | none => rw [get_null ht] at hs; cases hs; exact hi
  | some f =>
    obtain ⟨fr, hf, hl⟩ := hi.owned ht
    rw [get_of ht hf hl] at hs
    split at hs
    · cases hs
    · cases hs; exact hi.setFrame_live hf hl hl

/-- Under `Inv`, a move assignment stops only where no `Task` lives. -/
theorem Inv.moveAssign_error {h : Heap α} (hi : Inv h) {t o : Nat} {e : Fault}
    (he : h.moveAssign t o = .error e) : e = .noTask := by
  unfold Heap.moveAssign at he
  rcases bind_eq_error he with he | ⟨ct, ht, he⟩
  · exact task_error he
  rcases bind_eq_error he with he | ⟨co, -, he⟩
  · exact task_error he
  split at he
  · cases he
  · rcases hi.release_task (objs_of_task ht) with ⟨-, hrel⟩ | ⟨_, _, -, -, -, hrel⟩ <;>
      rw [hrel] at he <;> cases he

/-- Under `Inv`, a destructor stops only where no `Task` lives. -/
theorem Inv.destruct_error {h : Heap α} (hi : Inv h) {t : Nat} {e : Fault}
    (he : h.destruct t = .error e) : e = .noTask := by
  unfold Heap.destruct at he
  rcases bind_eq_error he with he | ⟨c, ht, he⟩
  · exact task_error he
  rcases hi.release_task (objs_of_task ht) with ⟨-, hrel⟩ | ⟨_, _, -, -, -, hrel⟩ <;>
    rw [hrel] at he <;> cases he

/-- Under `Inv`, `is_ready()` stops only where no `Task` lives. -/
theorem Inv.isReady_error {h : Heap α} (hi : Inv h) {t : Nat} {e : Fault}
    (he : h.isReady t = .error e) : e = .noTask := by
  cases ht : h.objs t with
  | absent => simpa [Heap.isReady, task_of_absent ht, eq_comm] using he
  | task c =>
  cases c with
  | none => simp [isReady_null ht] at he
  | some f =>
    obtain ⟨fr, hf, hl⟩ := hi.owned ht
    simp [isReady_of ht hf hl] at he

/-- Under `Inv`, `get()` stops only where no `Task` lives, or at the final suspend point of a
task whose `is_ready()` holds. -/
theorem Inv.get_error {h : Heap α} (hi : Inv h) {t : Nat} {e : Fault} (he : h.get t = .error e) :
    e = .noTask ∨ e = .resumeAtFinal ∧ h.isReady t = .ok true := by
  cases ht : h.objs t with
  | absent => exact .inl (by simpa [Heap.get, task_of_absent ht, eq_comm] using he)
  | task c =>
  cases c with
  | none => simp [get_null ht] at he
  | some f =>
    obtain ⟨fr, hf, hl⟩ := hi.owned ht
    rw [get_of ht hf hl] at he
    split at he
    · cases he
      exact .inr ⟨rfl, by simp [isReady_of ht hf hl, *]⟩
    · cases he

theorem Inv.step {h h' : Heap α} (hi : Inv h) {a : Act α} (hs : h.step a = .ok h') : Inv h' := by
  cases a with
  | call b => cases hs; exact hi.call b
  | construct =>
    cases hs
    rw [Heap.construct, place_eq]
    exact hi.bump.setObj_unowned (by simp [hi.freshObj (Nat.le_refl _)]) (Nat.lt_succ_self _) _
      (by simp)
  | moveConstruct o => exact hi.moveConstruct hs
  | moveAssign t o => exact hi.moveAssign hs
  | destruct t => exact hi.destruct hs
  | get t =>
    obtain ⟨⟨h1, r⟩, hg, rfl⟩ := map_eq_ok hs
    exact hi.get hg
  | isReady t =>
    obtain ⟨_, -, rfl⟩ := map_eq_ok hs
    exact hi

theorem Heap.Reachable.inv {h : Heap α} (hr : h.Reachable) : Inv h := by
  induction hr with
  | empty => exact inv_empty
  | step _ hs ih => exact ih.step hs

end Lemmas

/-! ## Results -/

section Results

variable {α : Type}

open Heap

/-- On every heap a program reaches, a call on its tasks has undefined behaviour only where
no `Task` lives, or in `get()` of a task whose `is_ready()` holds: no call ever resumes,
asks `done()` of, or destroys a destroyed frame. -/
theorem task_calls_fault_only_on_ready_get {h : Heap α} (hr : h.Reachable) (a : Act α)
    {e : Fault} (he : h.step a = .error e) :
    e = .noTask ∨ ∃ t, a = .get t ∧ e = .resumeAtFinal ∧ h.isReady t = .ok true := by
  have hi := hr.inv
  cases a with
  | call b => cases he
  | construct => cases he
  | moveConstruct o => exact .inl (task_error (map_eq_error he))
  | moveAssign t o => exact .inl (hi.moveAssign_error he)
  | destruct t => exact .inl (hi.destruct_error he)
  | get t =>
    rcases hi.get_error (map_eq_error he) with he | ⟨he, hready⟩
    · exact .inl he
    · exact .inr ⟨t, rfl, he, hready⟩
  | isReady t => exact .inl (hi.isReady_error (map_eq_error he))

/-- A coroutine that returns `7` without suspending, just called. -/
def eagerHeap : Heap Nat := Heap.empty.call ⟨0, .ok 7⟩

theorem reachable_eagerHeap : eagerHeap.Reachable :=
  @Reachable.step Nat _ _ (.call ⟨0, .ok 7⟩) .empty rfl

theorem task_calls_fault_only_on_ready_get_eager :
    eagerHeap.step (.get 0) = .error .resumeAtFinal ∧
      (Fault.resumeAtFinal = .noTask ∨ ∃ t, (Act.get 0 : Act Nat) = .get t ∧
        Fault.resumeAtFinal = .resumeAtFinal ∧ eagerHeap.isReady t = .ok true) :=
  ⟨rfl, task_calls_fault_only_on_ready_get reachable_eagerHeap _ rfl⟩

/-- A coroutine that suspends twice before returning `7`, just called. -/
def twiceHeap : Heap Nat := Heap.empty.call ⟨2, .ok 7⟩

/-- Frames are never leaked: once no `Task` is left, every frame has been destroyed. -/
theorem frames_destroyed_without_tasks {h : Heap α} (hr : h.Reachable)
    (hno : ∀ t, h.objs t = .absent) {f : Nat} {fr : Frame α} (hf : h.frames f = some fr) :
    fr.live = false := by
  by_contra hl
  obtain ⟨t, ht⟩ := hr.inv.leak hf (by simpa using hl)
  simp [hno t] at ht

/-- `twiceHeap` after its one `Task` is destroyed. -/
def destructedHeap : Heap Nat :=
  (twiceHeap.setFrame 0 ⟨2, .ok 7, false⟩).setObj 0 .absent

theorem frames_destroyed_without_tasks_destructed :
    (∀ t, destructedHeap.objs t = .absent) ∧ destructedHeap.frames 0 = some ⟨2, .ok 7, false⟩ ∧
      (⟨2, .ok 7, false⟩ : Frame Nat).live = false := by
  have hr : destructedHeap.Reachable :=
    @Reachable.step Nat _ _ (.destruct 0) (@Reachable.step Nat _ _ (.call ⟨2, .ok 7⟩) .empty rfl)
      rfl
  have hno : ∀ t, destructedHeap.objs t = .absent := fun t => by
    by_cases e : t = 0 <;> simp [destructedHeap, twiceHeap, Heap.call, place, Heap.empty, e]
  exact ⟨hno, rfl, frames_destroyed_without_tasks hr hno
    (rfl : destructedHeap.frames 0 = some ⟨2, .ok 7, false⟩)⟩

end Results

end Coroutine
end AsyncToolkit
