import AsyncToolkit.Memory.MemoryPool

/-!
# async_toolkit: pool pointers

This module models `memory::PoolPtr<T, BlockSize>` of
`include/async_toolkit/memory/memory_pool.hpp`, the owning pointer to a block of a
`MemoryPool`, over the pool model of `AsyncToolkit.Memory.MemoryPool`.

**State.**  A program has pools, by index, and `PoolPtr` objects, in the order they were
constructed; a destroyed object is `none`.  A `PoolPtr` holds `ptr_`, a block or `nullptr`,
and `pool_`, the index of a pool or `nullptr`.

**Operations.**  `PoolPtr()`, `PoolPtr::make(pool)` (which calls `pool.allocate()`), the
move constructor, move assignment and the destructor; the last two give the held block back
to its pool when both fields are set.  When the constructor of `T` throws inside
`pool.allocate()`, `make` leaves with the exception after the block was popped: no
`PoolPtr` holds it and it is not on the free list; the program records such lost blocks.
A member function called where no `PoolPtr` lives is undefined, and the call is `none`.
The accessors only read `ptr_`.

**Results.**  Each call does to a pool what one call of `MemoryPool.Client` does, or nothing
(`step_pool`), so along every run each pool is in the state of a run of its own clients
whose live pointers are the blocks the living `PoolPtr`s hold and whose lost blocks are the
ones a throwing `make` popped (`pool_ptr_runs_are_pool_runs`): every `deallocate` a
`PoolPtr` makes receives a live pointer.  The pool's layout then carries over
(`pool_ptrs_hold_distinct_blocks`): no two `PoolPtr`s hold one block, and each free list
runs through exactly the blocks of the chunks that no `PoolPtr` holds and no `make` lost.
A living `PoolPtr` has `ptr_` set exactly when it has `pool_` set
(`pool_ptr_fields_set_together`), so `operator bool` holds exactly when the destructor gives
a block back.
-/

namespace AsyncToolkit
namespace Memory

/-- The fields of a `PoolPtr<T, BlockSize>`: `ptr_`, a block or `nullptr`, and `pool_`, the
index of a `MemoryPool` or `nullptr`. -/
structure PoolPtr where
  ptr : Option Nat
  pool : Option Nat
  deriving DecidableEq, Repr

namespace PoolPtr

/-- `PoolPtr()`, and a pointer that was moved from: both fields `nullptr`. -/
def null : PoolPtr := ⟨none, none⟩

/-- The block of pool `q` that the pointer holds: `ptr_`, when `pool_` is `q`. -/
def held (q : Nat) (p : PoolPtr) : Option Nat :=
  if p.pool = some q then p.ptr else none

/-- A program's pools, by index, and its `PoolPtr` objects in the order they were
constructed; a destroyed object is `none`.  `lost` records, for each pool, the blocks that a
`make` popped for a `T` whose constructor threw. -/
structure Prog where
  pools : Nat → MemoryPool
  objs : List (Option PoolPtr)
  lost : Nat → List Nat

/-- A call on the pointers of a program. -/
inductive Act
  | construct
  | make (q : Nat)
  | makeThrows (q : Nat)
  | moveConstruct (o : Nat)
  | moveAssign (t o : Nat)
  | destruct (t : Nat)

namespace Prog

/-- Fresh pools and no `PoolPtr`. -/
def init : Prog := ⟨fun _ => MemoryPool.empty, [], fun _ => []⟩

/-- The `PoolPtr` object `i`, if it lives. -/
def obj (s : Prog) (i : Nat) : Option PoolPtr := s.objs[i]?.join

/-- `if (ptr_ && pool_) pool_->deallocate(ptr_);`, in `~PoolPtr` and in `operator=`. -/
def release (s : Prog) (p : PoolPtr) : Prog :=
  match p.ptr, p.pool with
  | some b, some q =>
    { s with pools := Function.update s.pools q ((s.pools q).deallocate (some b)) }
  | _, _ => s

/-- `PoolPtr()`. -/
def construct (s : Prog) : Prog := { s with objs := s.objs ++ [some null] }

/-- `PoolPtr::make(pool)`: `pool.allocate()`, and a new `PoolPtr` that holds the block and
the pool. -/
def make (B : Nat) (s : Prog) (q : Nat) : Prog :=
  { s with
    pools := Function.update s.pools q ((s.pools q).allocateBlock B).2
    objs := s.objs ++ [some ⟨some ((s.pools q).allocateBlock B).1, some q⟩] }

/-- `PoolPtr::make(pool)` when the constructor of `T` throws inside `pool.allocate()`: the
block is popped, no `PoolPtr` is constructed, and the exception leaves `make`. -/
def makeThrows (B : Nat) (s : Prog) (q : Nat) : Prog :=
  { s with
    pools := Function.update s.pools q ((s.pools q).allocateBlock B).2
    lost := Function.update s.lost q (((s.pools q).allocateBlock B).1 :: s.lost q) }

/-- `PoolPtr(PoolPtr&& other)`: a new `PoolPtr` takes both fields of `other`, which becomes
null. -/
def moveConstruct (s : Prog) (o : Nat) : Option Prog := do
  let p ← s.obj o
  pure { s with objs := s.objs.set o (some null) ++ [some p] }

/-- `operator=(PoolPtr&& other)` on the `PoolPtr` `t`: unless `other` is `t` itself, give
back the block `t` holds, take both fields of `other`, and make `other` null. -/
def moveAssign (s : Prog) (t o : Nat) : Option Prog := do
  let pt ← s.obj t
  let po ← s.obj o
  if t = o then pure s
  else pure { s.release pt with objs := (s.objs.set t (some po)).set o (some null) }

/-- `~PoolPtr()`: give back the block it holds; the object is gone. -/
def destruct (s : Prog) (t : Nat) : Option Prog := do
  let p ← s.obj t
  pure { s.release p with objs := s.objs.set t none }

/-- One call, on pools of `B` blocks a chunk; `none` where it is undefined. -/
def step (B : Nat) (s : Prog) : Act → Option Prog
  | .construct => some s.construct
  | .make q => some (s.make B q)
  | .makeThrows q => some (s.makeThrows B q)
  | .moveConstruct o => s.moveConstruct o
  | .moveAssign t o => s.moveAssign t o
  | .destruct t => s.destruct t

/-- The programs reached, call after call, from fresh pools. -/
inductive Reachable (B : Nat) : Prog → Prop
  | init : Reachable B init
  | step {s s' : Prog} {a : Act} : Reachable B s → s.step B a = some s' → Reachable B s'

/-- The blocks of pool `q` that the living `PoolPtr`s hold, with repetitions. -/
def owned (s : Prog) (q : Nat) : List Nat := s.objs.filterMap fun o => o.bind (held q)

end Prog

/-! ## Evaluation -/

section Lemmas

variable {s s' : Prog}

@[simp] theorem held_null (q : Nat) : null.held q = none := rfl

theorem held_mk (b q q' : Nat) :
    (⟨some b, some q'⟩ : PoolPtr).held q = if q' = q then some b else none := by
  simp [held]

theorem filterMap_cons_toList {α β : Type} (f : α → Option β) (a : α) (l : List α) :
    (a :: l).filterMap f = (f a).toList ++ l.filterMap f := by
  cases h : f a <;> simp [List.filterMap_cons, h]

/-- Overwriting object `i` swaps the block it adds to what the pointers of pool `q` hold. -/
theorem owned_set_perm (q : Nat) {l : List (Option PoolPtr)} {i : Nat} {o : Option PoolPtr}
    (ho : l[i]? = some o) (o' : Option PoolPtr) :
    ((l.set i o').filterMap (·.bind (held q)) ++ (o.bind (held q)).toList).Perm
      (l.filterMap (·.bind (held q)) ++ (o'.bind (held q)).toList) := by
  obtain ⟨hi, rfl⟩ := List.getElem?_eq_some_iff.1 ho
  obtain ⟨A, C, hl, -, hs⟩ := @List.exists_of_set _ i o' l hi
  rw [hs]
  conv_rhs => rw [hl]
  simp only [List.filterMap_append, filterMap_cons_toList, List.perm_iff_count, List.count_append]
  intro b
  omega

theorem obj_eq_some {i : Nat} {p : PoolPtr} : s.obj i = some p ↔ s.objs[i]? = some (some p) :=
  Option.join_eq_some

@[simp] theorem release_objs (s : Prog) (p : PoolPtr) : (s.release p).objs = s.objs := by
  unfold Prog.release
  split <;> rfl

@[simp] theorem release_lost (s : Prog) (p : PoolPtr) : (s.release p).lost = s.lost := by
  unfold Prog.release
  split <;> rfl

/-- A release gives pool `q` back the block of pool `q` the pointer holds, if any. -/
theorem release_pools (s : Prog) (p : PoolPtr) (q : Nat) :
    (s.release p).pools q = (s.pools q).deallocate (p.held q) := by
  obtain ⟨_ | b, _ | q'⟩ := p
  · rfl
  · simp [Prog.release, held, MemoryPool.deallocate]
  · rfl
  · rw [held_mk]
    by_cases hq : q' = q
    · subst hq
      simp [Prog.release]
    · simp [Prog.release, Function.update_noteq (Ne.symm hq), hq, MemoryPool.deallocate]

theorem moveConstruct_eq_some {o : Nat} (h : s.moveConstruct o = some s') :
    ∃ p, s.obj o = some p ∧ s' = { s with objs := s.objs.set o (some null) ++ [some p] } := by
  cases hp : s.obj o with
  | none => simp [Prog.moveConstruct, hp] at h
  | some p =>
    simp only [Prog.moveConstruct, hp, Option.some_bind] at h
    exact ⟨p, rfl, (Option.some.inj h).symm⟩

theorem moveAssign_eq_some {t o : Nat} (h : s.moveAssign t o = some s') :
    ∃ pt po, s.obj t = some pt ∧ s.obj o = some po ∧ (t = o ∧ s' = s ∨
      t ≠ o ∧ s' = { s.release pt with objs := (s.objs.set t (some po)).set o (some null) }) := by
  cases ht : s.obj t with
  | none => simp [Prog.moveAssign, ht] at h
  | some pt =>
  cases ho : s.obj o with
  | none => simp [Prog.moveAssign, ht, ho] at h
  | some po =>
    simp only [Prog.moveAssign, ht, ho, Option.bind_eq_bind, Option.some_bind] at h
    refine ⟨pt, po, rfl, rfl, ?_⟩
    by_cases hto : t = o
    · rw [if_pos hto] at h
      exact .inl ⟨hto, (Option.some.inj h).symm⟩
    · rw [if_neg hto] at h
      exact .inr ⟨hto, (Option.some.inj h).symm⟩

theorem destruct_eq_some {t : Nat} (h : s.destruct t = some s') :
    ∃ p, s.obj t = some p ∧ s' = { s.release p with objs := s.objs.set t none } := by
  cases hp : s.obj t with
  | none => simp [Prog.destruct, hp] at h
  | some p =>
    simp only [Prog.destruct, hp, Option.some_bind] at h
    exact ⟨p, rfl, (Option.some.inj h).symm⟩

end Lemmas

/-! ## What a call does -/

section Steps

variable {B : Nat} {s s' : Prog} {a : Act}

/-- What one call does to pool `q`: `make` on `q` allocates a block, which the new `PoolPtr`
holds or, when the constructor of `T` throws, which is lost; every other call gives back at
most one block, which a `PoolPtr` held and no longer does. -/
theorem step_pool (h : s.step B a = some s') (q : Nat) :
    (s'.pools q = ((s.pools q).allocateBlock B).2 ∧
      s'.owned q = s.owned q ++ [((s.pools q).allocateBlock B).1] ∧ s'.lost q = s.lost q) ∨
    (s'.pools q = ((s.pools q).allocateBlock B).2 ∧ s'.owned q = s.owned q ∧
      s'.lost q = ((s.pools q).allocateBlock B).1 :: s.lost q) ∨
    ∃ x, s'.pools q = (s.pools q).deallocate x ∧ (s'.owned q ++ x.toList).Perm (s.owned q) ∧
      s'.lost q = s.lost q := by
  cases a with
  | construct =>
    cases h
    exact .inr (.inr ⟨none, rfl, by simp [Prog.owned, Prog.construct], rfl⟩)
  | make q' =>
    cases h
    by_cases hq : q' = q
    · subst hq
      exact .inl ⟨by simp [Prog.make], by simp [Prog.owned, Prog.make, held], rfl⟩
    · refine .inr (.inr ⟨none, ?_, by simp [Prog.owned, Prog.make, held, hq], rfl⟩)
      simp only [Prog.make, Function.update_noteq (Ne.symm hq)]
      rfl
  | makeThrows q' =>
    cases h
    by_cases hq : q' = q
    · subst hq
      exact .inr (.inl ⟨by simp [Prog.makeThrows], rfl, by simp [Prog.makeThrows]⟩)
    · refine .inr (.inr ⟨none, ?_, by simp [Prog.owned, Prog.makeThrows], ?_⟩) <;>
        simp only [Prog.makeThrows, Function.update_noteq (Ne.symm hq)]
      rfl
  | moveConstruct o =>
    obtain ⟨p, hp, rfl⟩ := moveConstruct_eq_some h
    refine .inr (.inr ⟨none, rfl, ?_, rfl⟩)
    simpa [Prog.owned, filterMap_cons_toList] using
      owned_set_perm q (obj_eq_some.1 hp) (some null)
  | moveAssign t o =>
    obtain ⟨pt, po, ht, ho, ⟨-, rfl⟩ | ⟨hto, rfl⟩⟩ := moveAssign_eq_some h
    · exact .inr (.inr ⟨none, rfl, by simp, rfl⟩)
    refine .inr (.inr ⟨pt.held q, release_pools s pt q, ?_, by simp⟩)
    have h1 := owned_set_perm q (obj_eq_some.1 ht) (some po)
    have ho' : (s.objs.set t (some po))[o]? = some (some po) := by
      rw [List.getElem?_set_ne hto]
      exact obj_eq_some.1 ho
    have h2 := owned_set_perm q ho' (some null)
    rw [List.perm_iff_count] at h1 h2 ⊢
    intro b
    have := h1 b
    have := h2 b
    simp only [Prog.owned, List.count_append, Option.some_bind, held_null, Option.toList_none,
      List.count_nil] at *
    omega
  | destruct t =>
    obtain ⟨p, hp, rfl⟩ := destruct_eq_some h
    refine .inr (.inr ⟨p.held q, release_pools s p q, ?_, by simp⟩)
    simpa [Prog.owned] using owned_set_perm q (obj_eq_some.1 hp) none

/-- Every `PoolPtr` that a call leaves was there before it, is null, or holds a block of a
pool. -/
theorem step_objs (h : s.step B a = some s') {p : PoolPtr} (hp : some p ∈ s'.objs) :
    some p ∈ s.objs ∨ p = null ∨ ∃ b q, p = ⟨some b, some q⟩ := by
  have mem_of_obj : ∀ {i p}, s.obj i = some p → some p ∈ s.objs :=
    fun hi => List.getElem?_mem (obj_eq_some.1 hi)
  cases a with
  | construct =>
    cases h
    rcases List.mem_append.1 hp with hp | hp
    · exact .inl hp
    · exact .inr (.inl (by simpa using hp))
  | make q =>
    cases h
    rcases List.mem_append.1 hp with hp | hp
    · exact .inl hp
    · exact .inr (.inr ⟨_, _, by simpa using hp⟩)
  | makeThrows q =>
    cases h
    exact .inl hp
  | moveConstruct o =>
    obtain ⟨p', hp', rfl⟩ := moveConstruct_eq_some h
    rcases List.mem_append.1 hp with hp | hp
    · rcases List.mem_or_eq_of_mem_set hp with hp | hp
      · exact .inl hp
      · exact .inr (.inl (Option.some.inj hp))
    · rw [List.mem_singleton.1 hp]
      exact .inl (mem_of_obj hp')
  | moveAssign t o =>
    obtain ⟨pt, po, -, ho, ⟨-, rfl⟩ | ⟨-, rfl⟩⟩ := moveAssign_eq_some h
    · exact .inl hp
    rcases List.mem_or_eq_of_mem_set hp with hp | hp
    · rcases List.mem_or_eq_of_mem_set hp with hp | hp
      · exact .inl hp
      · rw [hp]
        exact .inl (mem_of_obj ho)
    · exact .inr (.inl (Option.some.inj hp))
  | destruct t =>
    obtain ⟨p', -, rfl⟩ := destruct_eq_some h
    rcases List.mem_or_eq_of_mem_set hp with hp | hp
    · exact .inl hp
    · cases hp

/-- Along every run, pool `q` is in the state of a run of `MemoryPool.Client` whose live
pointers are the blocks the living `PoolPtr`s hold and whose lost blocks are those a throwing
`make` popped. -/
theorem Prog.Reachable.simulates (h : s.Reachable B) (q : Nat) :
    ∃ c : Client, c.Reachable B ∧ c.pool = s.pools q ∧ c.live.Perm (s.owned q) ∧
      c.lost = s.lost q := by
  induction h with
  | init => exact ⟨Client.init, .init, rfl, .nil, rfl⟩
  | @step s s' a _ hs ih =>
    obtain ⟨c, hc, hp, hl, hc'⟩ := ih
    rcases step_pool hs q with ⟨hp', ho', hk⟩ | ⟨hp', ho', hk⟩ | ⟨_ | b, hp', ho', hk⟩
    · refine ⟨_, .step hc (.allocate c), by rw [hp', hp], ?_, by rw [hk, ← hc']⟩
      rw [ho', ← hp]
      exact (hl.cons _).trans (List.perm_append_singleton _ _).symm
    · exact ⟨_, .step hc (.allocateThrows c), by rw [hp', hp], by rw [ho']; exact hl,
        by rw [hk, ← hc', ← hp]⟩
    · exact ⟨c, hc, by rw [hp', hp]; rfl, hl.trans (by simpa using ho'.symm), by rw [hk, hc']⟩
    · have hb : b ∈ c.live := hl.mem_iff.2 (ho'.subset (by simp))
      refine ⟨_, .step hc (.deallocate c hb), by rw [hp', hp], ?_, by rw [hk, ← hc']⟩
      have hL := (List.perm_append_singleton b (s'.owned q)).erase b
      rw [List.erase_cons_head] at hL
      exact ((hl.trans ho'.symm).erase b).trans hL

/-- Along every run, both fields of a living `PoolPtr` are set, or neither is. -/
theorem Prog.Reachable.paired (h : s.Reachable B) {p : PoolPtr} (hp : some p ∈ s.objs) :
    p.ptr.isSome = p.pool.isSome := by
  induction h with
  | init => cases hp
  | step _ hs ih =>
    rcases step_objs hs hp with hp | rfl | ⟨b, q, rfl⟩
    · exact ih hp
    · rfl
    · rfl

end Steps

/-! ## Results -/

section Results

variable {B : Nat} {s : Prog}

/-- Every run of a program's `PoolPtr`s is, pool by pool, a run of the pool's own clients in
which the live pointers are the blocks the living `PoolPtr`s hold and the lost blocks are
those popped by a `make` whose `T` constructor threw: in particular each `deallocate` that a
destructor or a move assignment calls receives a live pointer. -/
theorem pool_ptr_runs_are_pool_runs (h : s.Reachable B) (q : Nat) :
    ∃ c : Client, c.Reachable B ∧ c.pool = s.pools q ∧ c.live.Perm (s.owned q) ∧
      c.lost = s.lost q :=
  h.simulates q

/-- `auto p = PoolPtr::make(pool); auto r = PoolPtr::make(pool);` on pool `0`, with 15 blocks
a chunk. -/
def twoMade : Prog := (Prog.init.make 15 0).make 15 0

/-- Then `r = std::move(p);`, which gives `r`'s block back, and `p` leaves its scope. -/
def handOff : Prog :=
  { twoMade.release ⟨some 1, some 0⟩ with objs := [none, some ⟨some 0, some 0⟩] }

theorem reachable_handOff : handOff.Reachable 15 :=
  let moved : Prog :=
    { twoMade.release ⟨some 1, some 0⟩ with objs := [some null, some ⟨some 0, some 0⟩] }
  .step (.step (.step (.step .init (rfl : Prog.init.step 15 (.make 0) = some (Prog.init.make 15 0)))
    (rfl : (Prog.init.make 15 0).step 15 (.make 0) = some twoMade))
    (rfl : twoMade.step 15 (.moveAssign 1 0) = some moved))
    (rfl : moved.step 15 (.destruct 0) = some handOff)

theorem pool_ptr_runs_are_pool_runs_handOff :
    handOff.Reachable 15 ∧
      ∃ c : Client, c.Reachable 15 ∧ c.pool = handOff.pools 0 ∧ c.live.Perm (handOff.owned 0) ∧
        c.lost = handOff.lost 0 :=
  ⟨reachable_handOff, pool_ptr_runs_are_pool_runs reachable_handOff 0⟩

/-- On every reachable program with `B ≥ 1` blocks a chunk, no two living `PoolPtr`s hold one
block of a pool and none holds a block lost to a throwing `make`, and the pool's free list is
an acyclic chain through exactly the blocks of its chunks that no `PoolPtr` holds and no
throwing `make` lost: no block is given back twice or handed out while it is held, and the
only blocks missing from the free list and from every `PoolPtr` are the lost ones. -/
theorem pool_ptrs_hold_distinct_blocks (hB : 0 < B) (h : s.Reachable B) (q : Nat) :
    (s.owned q ++ s.lost q).Nodup ∧
      ∃ F, Chain (s.pools q).next (s.pools q).freeList F ∧ F.Nodup ∧
        ∀ a, a ∈ F ↔ a < (s.pools q).chunks * B ∧ a ∉ s.owned q ∧ a ∉ s.lost q := by
  obtain ⟨c, hc, hp, hl, hc'⟩ := h.simulates q
  have hlay := (hc.inv hB).layout.perm (hl.append_right c.lost)
  rw [hp, hc'] at hlay
  obtain ⟨F, hF, hnd, hmem⟩ := hlay.free
  exact ⟨hlay.live_nodup, F, hF, hnd, fun a => by simpa [not_or] using hmem a⟩

/-- A `make` on a fresh pool whose constructor throws: the block is lost, no `PoolPtr` holds
it, and the free list starts at the next block. -/
example : (Prog.init.makeThrows 15 0).lost 0 = [0] ∧ (Prog.init.makeThrows 15 0).owned 0 = [] ∧
    ((Prog.init.makeThrows 15 0).pools 0).freeList = some 1 := ⟨rfl, rfl, rfl⟩

theorem pool_ptrs_hold_distinct_blocks_handOff :
    0 < 15 ∧ handOff.Reachable 15 ∧
      ((handOff.owned 0 ++ handOff.lost 0).Nodup ∧
        ∃ F, Chain (handOff.pools 0).next (handOff.pools 0).freeList F ∧ F.Nodup ∧
          ∀ a, a ∈ F ↔ a < (handOff.pools 0).chunks * 15 ∧ a ∉ handOff.owned 0 ∧
            a ∉ handOff.lost 0) :=
  ⟨by decide, reachable_handOff, pool_ptrs_hold_distinct_blocks (by decide) reachable_handOff 0⟩

/-- On every reachable program a living `PoolPtr` has `ptr_` set exactly when it has `pool_`
set, so `operator bool` holds exactly when the destructor gives a block back. -/
theorem pool_ptr_fields_set_together (h : s.Reachable B) {i : Nat} {p : PoolPtr}
    (hp : s.obj i = some p) : p.ptr.isSome = p.pool.isSome :=
  h.paired (List.getElem?_mem (obj_eq_some.1 hp))

theorem pool_ptr_fields_set_together_handOff :
    handOff.Reachable 15 ∧ handOff.obj 1 = some ⟨some 0, some 0⟩ ∧
      (some 0 : Option Nat).isSome = (some 0 : Option Nat).isSome :=
  ⟨reachable_handOff, rfl, pool_ptr_fields_set_together reachable_handOff
    (rfl : handOff.obj 1 = some ⟨some 0, some 0⟩)⟩

end Results

end PoolPtr

end Memory
end AsyncToolkit
