import AsyncToolkit.Memory.MemoryPool

/-!
# async_toolkit: node memory of the Michael–Scott queues

`MPMCQueue<T>` and `MPMCChannel<T>` share one memory layout.  A node lives in a
block of the structure's `MemoryPool` and is named by the block's address:
`next b` is its `Node::next` (`none` is `nullptr`) and `data b` its `Node::data`.
Besides the nodes there are `head_`, `tail_`, `size_` (a `size_t`, so it wraps
modulo `2 ^ 64`) and `pool_`.  The channel's `Node::committed` flag is written by
its constructor and never read, so it is not represented.
-/

namespace AsyncToolkit
namespace Lockfree

open Memory

/-- The parameters of one queue or channel: `capacity_`, a `size_t`, and the number
`blocks` of node blocks in a 64 KiB chunk of `pool_`. -/
structure Config where
  capacity : Nat
  blocks : Nat
  capacity_lt : capacity < 2 ^ 64
  blocks_pos : 0 < blocks

/-- The shared memory of one `MPMCQueue<T>` or `MPMCChannel<T>`. -/
structure Mem (α : Type) where
  next : Nat → Option Nat
  data : Nat → α
  head : Nat
  tail : Nat
  size : Nat
  pool : MemoryPool

/-- `new (block) Node()`: `next` is `nullptr`, `data` is value-initialized. -/
def Mem.construct [Inhabited α] (m : Mem α) (b : Nat) : Mem α :=
  { m with next := Function.update m.next b none, data := Function.update m.data b default }

@[simp] theorem Mem.construct_next [Inhabited α] (m : Mem α) (b : Nat) :
    (m.construct b).next = Function.update m.next b none := rfl

@[simp] theorem Mem.construct_data [Inhabited α] (m : Mem α) (b : Nat) :
    (m.construct b).data = Function.update m.data b default := rfl

@[simp] theorem Mem.construct_head [Inhabited α] (m : Mem α) (b : Nat) :
    (m.construct b).head = m.head := rfl

@[simp] theorem Mem.construct_tail [Inhabited α] (m : Mem α) (b : Nat) :
    (m.construct b).tail = m.tail := rfl

@[simp] theorem Mem.construct_size [Inhabited α] (m : Mem α) (b : Nat) :
    (m.construct b).size = m.size := rfl

@[simp] theorem Mem.construct_pool [Inhabited α] (m : Mem α) (b : Nat) :
    (m.construct b).pool = m.pool := rfl

/-- A `compare_exchange_weak` whose expected value is `expected`: it fails when the location
holds something else, and may fail spuriously. -/
def weakCas (spurious : Bool) (current expected : Nat) : Bool :=
  !spurious && current == expected

theorem eq_of_weakCas {spurious : Bool} {current expected : Nat}
    (h : weakCas spurious current expected = true) : current = expected := by
  simp only [weakCas, Bool.and_eq_true, beq_iff_eq] at h
  exact h.2

/-- Thread `t` of a system of two threads, `p` and `c`; the others are `d`. -/
theorem getD_pair {β : Type} (p c d : β) (t : Nat) :
    [p, c].getD t d = if t = 0 then p else if t = 1 then c else d := by
  match t with
  | 0 => rfl
  | 1 => rfl
  | _ + 2 => rfl

/-- `t` occurs in the list of queue nodes `L` no later than `u`. -/
def NoLater (L : List Nat) (t u : Nat) : Prop := ∃ A B, L = A ++ t :: B ∧ u ∈ t :: B

namespace NoLater

variable {L : List Nat} {t u : Nat}

theorem head {h : Nat} (hu : u ∈ h :: L) : NoLater (h :: L) h u := ⟨[], L, rfl, hu⟩

theorem refl (ht : t ∈ L) : NoLater L t t := by
  obtain ⟨A, B, rfl⟩ := List.append_of_mem ht
  exact ⟨A, B, rfl, List.mem_cons_self _ _⟩

theorem mem_left (h : NoLater L t u) : t ∈ L := by
  obtain ⟨A, B, rfl, -⟩ := h
  simp

theorem mem_right (h : NoLater L t u) : u ∈ L := by
  obtain ⟨A, B, rfl, hu⟩ := h
  exact List.mem_append_right _ hu

theorem append (h : NoLater L t u) (M : List Nat) : NoLater (L ++ M) t u := by
  obtain ⟨A, B, rfl, hu⟩ := h
  exact ⟨A, B ++ M, by simp, List.mem_append_left _ hu⟩

/-- Moving `u` to its successor along the chain keeps it no earlier than `t`. -/
theorem succ {next : Nat → Option Nat} {p : Option Nat} (hc : Chain next p L)
    (h : NoLater L t u) {y : Nat} (hy : next u = some y) : NoLater L t y := by
  obtain ⟨A, B, rfl, hu⟩ := h
  refine ⟨A, B, rfl, ?_⟩
  obtain ⟨B1, B2, hsplit⟩ := List.append_of_mem hu
  rw [hsplit, ← List.append_assoc] at hc
  have h2 := hc.of_append
  rw [hy] at h2
  cases h2
  rw [hsplit]
  simp

/-- Dropping the first node, when `t` is not it. -/
theorem tail {a : Nat} (h : NoLater (a :: L) t u) (ht : t ≠ a) : NoLater L t u := by
  obtain ⟨A, B, hL, hu⟩ := h
  cases A with
  | nil => exact absurd (List.cons.inj hL).1.symm ht
  | cons a' A => exact ⟨A, B, (List.cons.inj hL).2, hu⟩

end NoLater

/-- The configuration of the default constructors, `capacity = 1024`, with the 15 blocks
of 4112 bytes that a 64 KiB chunk holds for the default `BlockSize` of 4096 on x86-64. -/
def Config.default : Config := ⟨1024, 15, by decide, by decide⟩

end Lockfree
end AsyncToolkit
