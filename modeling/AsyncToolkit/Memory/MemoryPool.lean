import Mathlib.Algebra.Group.Nat.Basic
import Mathlib.Logic.Function.Basic
import Mathlib.Data.List.Nodup
import Mathlib.Data.List.Perm.Subperm

/-!
# async_toolkit: the typed memory pool

This module models `memory::MemoryPool<T, BlockSize>` of
`include/async_toolkit/memory/memory_pool.hpp`.

**State.**  The pool keeps a free-list head `free_list_`, the intrusive link
`Block::next` of every block and the vector `chunks_`.  Each chunk holds `B`
blocks (`Chunk::chunk_size / sizeof(Block)`); block `i` of chunk `c` has the
address `c * B + i`, so a chunk is represented by its index alone.  `nullptr` is
`none`.

**Operations.**  `allocate_block` pops the head of the free list, first threading
a fresh chunk onto it when the list is empty (`allocate_chunk`); `deallocate`
pushes a block back (LIFO).  `allocate` then constructs a `T` in the popped block; when
that constructor throws, the exception leaves `allocate` with the block popped and never
handed out, so the block is lost.  The lock-free structures that use the pool construct
their nodes themselves and model that part.

**Results.**  `Layout` is the pool against the blocks its callers hold;
`Layout.allocate` and `Layout.deallocate` keep it, and the lock-free structures
build their own invariants on it.  Calls are serialized by `mutex_`, so a run is a
sequence of calls.  `reachable_pool_layout`: along every sequence in which each
`deallocate` receives `nullptr` or a live pointer, live and lost blocks are pairwise
distinct, the free list is an acyclic chain through exactly the blocks that are
neither live nor lost, a chunk is added only when every block is live or lost, and the
number of chunks is the ceiling of the peak number of blocks out of the free list divided
by `B`.  With a throwing constructor the free list therefore misses a block that no
pointer holds (`constructor_throw_loses_block`).
-/

namespace AsyncToolkit
namespace Memory

/-- `Chain next p L`: following `next` from `p` visits the blocks `L` in order and
then reaches `nullptr`. -/
inductive Chain (next : Nat → Option Nat) : Option Nat → List Nat → Prop
  | null : Chain next none []
  | link {b : Nat} {L : List Nat} : Chain next (next b) L → Chain next (some b) (b :: L)

namespace Chain

variable {next next' : Nat → Option Nat}

theorem unique {p : Option Nat} {L L' : List Nat} (h : Chain next p L) (h' : Chain next p L') :
    L = L' := by
  induction h generalizing L' with
  | null => cases h'; rfl
  | link _ ih => cases h' with
    | link h' => rw [ih h']

/-- A chain only reads the links of its own blocks. -/
theorem congr {p : Option Nat} {L : List Nat} (h : Chain next p L)
    (heq : ∀ a ∈ L, next' a = next a) : Chain next' p L := by
  induction h with
  | null => exact .null
  | @link b L _ ih =>
    refine .link ?_
    rw [heq b (List.mem_cons_self _ _)]
    exact ih fun a ha => heq a (List.mem_cons_of_mem _ ha)

/-- Blocks `a, a + 1, …, a + n - 1` linked in order, followed by the chain `L`. -/
theorem run {a n : Nat} {L : List Nat}
    (hstep : ∀ i < n, next (a + i) = some (a + i + 1)) (h : Chain next (some (a + n)) L) :
    Chain next (some a) (List.range' a n ++ L) := by
  induction n generalizing a with
  | zero => simpa using h
  | succ n ih =>
    rw [List.range'_succ, List.cons_append]
    refine .link ?_
    have h0 := hstep 0 (Nat.succ_pos n)
    rw [Nat.add_zero] at h0
    rw [h0]
    refine ih (fun i hi => ?_) (by rwa [Nat.add_right_comm, Nat.add_assoc])
    rw [Nat.add_right_comm, Nat.add_assoc]
    exact hstep (i + 1) (by omega)

/-- Follow `next` from `p` through at most `fuel` blocks. -/
def follow (next : Nat → Option Nat) : Nat → Option Nat → Option (List Nat)
  | _, none => some []
  | 0, some _ => none
  | fuel + 1, some b => (follow next fuel (next b)).map (b :: ·)

/-- A walk that reaches `nullptr` within its fuel is a chain. -/
theorem of_follow (fuel : Nat) {p : Option Nat} {L : List Nat} (h : follow next fuel p = some L) :
    Chain next p L := by
  induction fuel generalizing p L with
  | zero => cases p <;> simp_all [follow, Chain.null]
  | succ fuel ih =>
    cases p with
    | none => simp only [follow, Option.some.injEq] at h; exact h ▸ .null
    | some b =>
      obtain ⟨L', h', rfl⟩ := Option.map_eq_some'.1 h
      exact .link (ih h')

/-- A chain from a block starts with that block. -/
theorem eq_cons {b : Nat} {L : List Nat} (h : Chain next (some b) L) :
    ∃ R, L = b :: R ∧ Chain next (next b) R := by
  cases h with | link h => exact ⟨_, rfl, h⟩

/-- Linking `node` behind the last block `x` of a chain extends the chain by `node`. -/
theorem snoc {p : Option Nat} {L : List Nat} (h : Chain next p L) {x node : Nat} (hx : x ∈ L)
    (hnx : next x = none) (hnode : node ∉ L) (hnn : next node = none) :
    Chain (Function.update next x (some node)) p (L ++ [node]) := by
  induction h with
  | null => cases hx
  | @link b L hL ih =>
    have hb : b ≠ node := fun e => hnode (e ▸ List.mem_cons_self _ _)
    by_cases hxb : x = b
    · subst hxb
      rw [hnx] at hL
      cases hL
      refine .link ?_
      rw [Function.update_same]
      exact .link (by rw [Function.update_noteq (Ne.symm hb), hnn]; exact .null)
    · refine .link ?_
      rw [Function.update_noteq (Ne.symm hxb)]
      exact ih ((List.mem_cons.1 hx).resolve_left hxb) fun h => hnode (List.mem_cons_of_mem _ h)

/-- The part of a chain after one of its blocks is the chain from that block's link. -/
theorem of_append {p : Option Nat} {A : List Nat} {x : Nat} {C : List Nat}
    (h : Chain next p (A ++ x :: C)) : Chain next (next x) C := by
  induction A generalizing p with
  | nil => cases h with | link h => exact h
  | cons a A ih => cases h with | link h => exact ih h

/-- The successor of a block of a chain is in the chain. -/
theorem mem_of_next {p : Option Nat} {L : List Nat} (h : Chain next p L) {x y : Nat}
    (hx : x ∈ L) (hy : next x = some y) : y ∈ L := by
  obtain ⟨A, C, rfl⟩ := List.append_of_mem hx
  have hC := h.of_append
  rw [hy] at hC
  cases hC
  simp

end Chain

/-- The state of `MemoryPool<T, BlockSize>`: `free_list_`, the field `Block::next` of
every block, and the number of chunks in `chunks_`. -/
structure MemoryPool where
  freeList : Option Nat
  next : Nat → Option Nat
  chunks : Nat

namespace MemoryPool

/-- `MemoryPool()`: no chunk and an empty free list. -/
def empty : MemoryPool := ⟨none, fun _ => none, 0⟩

/-- The loop of `allocate_chunk` that sets `blocks[i].next = &blocks[i + 1]` for `i < k`. -/
def linkBlocks (base : Nat) : Nat → (Nat → Option Nat) → Nat → Option Nat
  | 0, next => next
  | k + 1, next => Function.update (linkBlocks base k next) (base + k) (some (base + k + 1))

/-- `allocate_chunk`: a new chunk of `B` blocks, threaded in order and put in front of
the free list. -/
def allocateChunk (B : Nat) (p : MemoryPool) : MemoryPool :=
  { freeList := some (p.chunks * B)
    next := Function.update (linkBlocks (p.chunks * B) (B - 1) p.next)
      (p.chunks * B + (B - 1)) p.freeList
    chunks := p.chunks + 1 }

/-- `block = free_list_; free_list_ = block->next; return block;` -/
def popFree (b : Nat) (p : MemoryPool) : Nat × MemoryPool :=
  (b, { p with freeList := p.next b })

/-- `allocate_block`: take a fresh chunk when the free list is empty, then pop. -/
def allocateBlock (B : Nat) (p : MemoryPool) : Nat × MemoryPool :=
  match p.freeList with
  | some b => popFree b p
  | none => popFree (p.chunks * B) (allocateChunk B p)

/-- `deallocate`: `nullptr` is ignored, any other block is pushed on the free list. -/
def deallocate (p : MemoryPool) : Option Nat → MemoryPool
  | none => p
  | some b => { p with next := Function.update p.next b p.freeList, freeList := some b }

/-- `Chunk::chunk_size`, 64 KiB. -/
def chunkSize : Nat := 64 * 1024

/-- `allocated_size`. -/
def allocatedSize (p : MemoryPool) : Nat := p.chunks * chunkSize

theorem linkBlocks_apply (base k : Nat) (next : Nat → Option Nat) (a : Nat) :
    linkBlocks base k next a = if base ≤ a ∧ a < base + k then some (a + 1) else next a := by
  induction k with
  | zero => rw [if_neg (by omega)]; rfl
  | succ k ih =>
    by_cases ha : a = base + k
    · subst ha; simp [linkBlocks]
    · simp only [linkBlocks, Function.update_noteq ha, ih]
      split_ifs <;> first | rfl | omega

@[simp] theorem allocateChunk_chunks (B : Nat) (p : MemoryPool) :
    (allocateChunk B p).chunks = p.chunks + 1 := rfl

@[simp] theorem allocateBlock_chunks_some {B b : Nat} {p : MemoryPool} (h : p.freeList = some b) :
    allocateBlock B p = (b, { p with freeList := p.next b }) := by
  simp [allocateBlock, h, popFree]

/-- After `allocate_chunk` on `B ≥ 1` blocks the chain from the new head runs through the
whole chunk and then through the old free list. -/
theorem allocateChunk_chain {B : Nat} (hB : 0 < B) {p : MemoryPool} {F : List Nat}
    (hF : Chain p.next p.freeList F) (hlt : ∀ a ∈ F, a < p.chunks * B) :
    Chain (allocateChunk B p).next (allocateChunk B p).freeList
      (List.range' (p.chunks * B) B ++ F) := by
  obtain ⟨k, rfl⟩ : ∃ k, B = k + 1 := ⟨B - 1, by omega⟩
  have hsplit : List.range' (p.chunks * (k + 1)) (k + 1) ++ F =
      List.range' (p.chunks * (k + 1)) k ++ ((p.chunks * (k + 1) + k) :: F) := by
    simp [List.range'_concat]
  rw [hsplit]
  refine Chain.run (fun i hi => ?_) (.link ?_)
  · simp only [allocateChunk, Nat.add_sub_cancel]
    rw [Function.update_noteq (by omega), linkBlocks_apply, if_pos (by omega)]
  · have hlast : (allocateChunk (k + 1) p).next (p.chunks * (k + 1) + k) = p.freeList := by
      simp [allocateChunk]
    rw [hlast]
    refine hF.congr fun a ha => ?_
    have := hlt a ha
    simp only [allocateChunk, Nat.add_sub_cancel]
    rw [Function.update_noteq (by omega), linkBlocks_apply, if_neg (by omega)]

/-- The pool against the blocks `live` its callers hold: these are pairwise distinct
blocks of the chunks, and the free list is an acyclic chain through exactly the
other blocks of the chunks. -/
structure Layout (B : Nat) (p : MemoryPool) (live : List Nat) : Prop where
  live_nodup : live.Nodup
  live_lt : ∀ a ∈ live, a < p.chunks * B
  free : ∃ F, Chain p.next p.freeList F ∧ F.Nodup ∧
    ∀ a, a ∈ F ↔ a < p.chunks * B ∧ a ∉ live

end MemoryPool

/-- A list of pairwise distinct blocks below `n` has at most `n` entries. -/
theorem length_le_of_nodup {l : List Nat} {n : Nat} (hl : l.Nodup) (hlt : ∀ a ∈ l, a < n) :
    l.length ≤ n :=
  (List.subperm_of_subset hl fun a ha => List.mem_range.2 (hlt a ha)).length_le.trans (by simp)

namespace MemoryPool.Layout

variable {B : Nat} {p : MemoryPool} {live : List Nat}

theorem empty (B : Nat) : Layout B MemoryPool.empty [] :=
  ⟨List.nodup_nil, by simp, ⟨[], .null, List.nodup_nil, by simp [MemoryPool.empty]⟩⟩

theorem perm {live' : List Nat} (h : Layout B p live) (hp : live.Perm live') :
    Layout B p live' := by
  obtain ⟨F, hF, hnd, hmem⟩ := h.free
  exact ⟨hp.nodup_iff.1 h.live_nodup, fun a ha => h.live_lt a (hp.mem_iff.2 ha),
    ⟨F, hF, hnd, fun a => by rw [hmem, hp.mem_iff]⟩⟩

/-- With the free list empty every block is live. -/
theorem length_of_null (h : Layout B p live) (hf : p.freeList = none) :
    live.length = p.chunks * B := by
  obtain ⟨F, hF, -, hmem⟩ := h.free
  rw [hf] at hF
  cases hF
  refine le_antisymm (length_le_of_nodup h.live_nodup h.live_lt) ?_
  have hsub := List.subperm_of_subset (List.nodup_range (p.chunks * B)) fun a ha => by
    by_contra hl
    exact List.not_mem_nil a ((hmem a).2 ⟨List.mem_range.1 ha, hl⟩)
  simpa using hsub.length_le

theorem allocate_pop (h : Layout B p live) {b : Nat} (hf : p.freeList = some b) :
    Layout B (p.allocateBlock B).2 ((p.allocateBlock B).1 :: live) := by
  obtain ⟨F, hF, hnd, hmem⟩ := h.free
  rw [hf] at hF
  obtain _ | @⟨_, F', hF'⟩ := hF
  have hb := (hmem b).1 (List.mem_cons_self _ _)
  simp only [allocateBlock_chunks_some hf]
  refine ⟨List.nodup_cons.2 ⟨hb.2, h.live_nodup⟩, by simpa [hb.1] using h.live_lt,
    ⟨F', hF', (List.nodup_cons.1 hnd).2, fun a => ?_⟩⟩
  have hne : a ∈ F' → a ≠ b := fun ha hab => (List.nodup_cons.1 hnd).1 (hab ▸ ha)
  simp only [List.mem_cons, not_or]
  constructor
  · intro ha
    have := (hmem a).1 (List.mem_cons_of_mem _ ha)
    exact ⟨this.1, hne ha, this.2⟩
  · rintro ⟨hlt, hab, hl⟩
    exact (List.mem_cons.1 ((hmem a).2 ⟨hlt, hl⟩)).resolve_left hab

theorem allocate_chunk (hB : 0 < B) (h : Layout B p live) (hf : p.freeList = none) :
    Layout B (p.allocateBlock B).2 ((p.allocateBlock B).1 :: live) := by
  have hlive : ∀ a, a ∈ live ↔ a < p.chunks * B := fun a => by
    obtain ⟨F, hF, -, hmem⟩ := h.free
    rw [hf] at hF
    cases hF
    exact ⟨h.live_lt a,
      fun hlt => by_contra fun hl => List.not_mem_nil a ((hmem a).2 ⟨hlt, hl⟩)⟩
  have hchain := allocateChunk_chain hB (F := []) (by rw [hf]; exact .null) (by simp)
  obtain ⟨k, rfl⟩ : ∃ k, B = k + 1 := ⟨B - 1, by omega⟩
  rw [List.append_nil, List.range'_succ] at hchain
  obtain _ | @⟨_, F', hF'⟩ := hchain
  simp only [allocateBlock, hf, popFree]
  refine ⟨?_, fun a ha => ?_, ⟨_, hF', List.nodup_range' _ _, fun a => ?_⟩⟩ <;>
    dsimp only [allocateChunk_chunks] at * <;> (try rw [Nat.succ_mul] at *)
  · exact List.nodup_cons.2 ⟨fun hm => Nat.lt_irrefl _ ((hlive _).1 hm), h.live_nodup⟩
  · rcases List.mem_cons.1 ha with rfl | ha
    · omega
    · have := (hlive a).1 ha; omega
  · rw [List.mem_range'_1, List.mem_cons, not_or, hlive]
    omega

/-- `allocate_block` hands out a block that was not live and keeps the layout. -/
theorem allocate (hB : 0 < B) (h : Layout B p live) :
    Layout B (p.allocateBlock B).2 ((p.allocateBlock B).1 :: live) := by
  cases hf : p.freeList with
  | none => exact h.allocate_chunk hB hf
  | some b => exact h.allocate_pop hf

theorem deallocate (h : Layout B p live) {b : Nat} (hb : b ∈ live) :
    Layout B (p.deallocate (some b)) (live.erase b) := by
  obtain ⟨F, hF, hnd, hmem⟩ := h.free
  have hbF : b ∉ F := fun hbF => ((hmem b).1 hbF).2 hb
  refine ⟨h.live_nodup.erase b, fun a ha => h.live_lt a (List.mem_of_mem_erase ha),
    ⟨b :: F, .link ?_, List.nodup_cons.2 ⟨hbF, hnd⟩, fun a => ?_⟩⟩
  · simp only [MemoryPool.deallocate, Function.update_same]
    exact hF.congr fun a ha => Function.update_noteq (fun (hab : a = b) => hbF (hab ▸ ha)) _ _
  · by_cases hab : a = b
    · subst hab
      simp [MemoryPool.deallocate, h.live_lt a hb, h.live_nodup.not_mem_erase]
    · simp [MemoryPool.deallocate, List.mem_erase_of_ne hab, hab, hmem a]

/-- A caller that keeps its blocks as `A ++ C` receives a block that is in neither, and
keeps it between them. -/
theorem allocate_between (hB : 0 < B) {A C : List Nat} (h : Layout B p (A ++ C)) :
    (p.allocateBlock B).1 ∉ A ++ C ∧
      Layout B (p.allocateBlock B).2 (A ++ [(p.allocateBlock B).1] ++ C) := by
  have hl := h.allocate hB
  refine ⟨(List.nodup_cons.1 hl.live_nodup).1, hl.perm ?_⟩
  rw [List.append_assoc, List.singleton_append]
  exact List.perm_middle.symm

/-- A caller gives back the block it keeps last. -/
theorem deallocate_last {A : List Nat} {b : Nat} (h : Layout B p (A ++ [b])) :
    Layout B (p.deallocate (some b)) A := by
  have hb : b ∉ A := fun hx =>
    List.disjoint_of_nodup_append h.live_nodup hx (List.mem_singleton_self _)
  have hl := h.deallocate (List.mem_append_right _ (List.mem_singleton_self b))
  rwa [List.erase_append_right _ hb, List.erase_cons_head, List.append_nil] at hl

end MemoryPool.Layout

/-- A pool together with the pointers its callers hold, the blocks lost to a constructor
that threw, and the largest number of blocks ever out of the free list at once; the last
three fields record the run and are not part of the pool. -/
structure Client where
  pool : MemoryPool
  live : List Nat
  lost : List Nat
  peak : Nat

namespace Client

/-- No call made yet. -/
def init : Client := ⟨MemoryPool.empty, [], [], 0⟩

/-- One call on the pool; `mutex_` serializes them.  `allocate` pops a block and constructs
a `T` in it; when the constructor throws, the exception leaves `allocate` and the popped
block is neither handed out nor given back.  A `deallocate` receives `nullptr` or a pointer
that is currently live. -/
inductive Step (B : Nat) : Client → Client → Prop
  | allocate (c : Client) :
      Step B c ⟨(c.pool.allocateBlock B).2, (c.pool.allocateBlock B).1 :: c.live, c.lost,
        max c.peak (c.live.length + c.lost.length + 1)⟩
  | allocateThrows (c : Client) :
      Step B c ⟨(c.pool.allocateBlock B).2, c.live, (c.pool.allocateBlock B).1 :: c.lost,
        max c.peak (c.live.length + c.lost.length + 1)⟩
  | deallocateNull (c : Client) : Step B c ⟨c.pool.deallocate none, c.live, c.lost, c.peak⟩
  | deallocate (c : Client) {b : Nat} (hb : b ∈ c.live) :
      Step B c ⟨c.pool.deallocate (some b), c.live.erase b, c.lost, c.peak⟩

/-- Clients reached from `init` by finitely many calls. -/
inductive Reachable (B : Nat) : Client → Prop
  | init : Reachable B init
  | step {c c' : Client} : Reachable B c → Step B c c' → Reachable B c'

/-- The layout of the pool against the blocks out of its free list, live or lost, and the
peak they reached. -/
structure Inv (B : Nat) (c : Client) : Prop where
  layout : MemoryPool.Layout B c.pool (c.live ++ c.lost)
  out_le_peak : c.live.length + c.lost.length ≤ c.peak
  peak_le : c.peak ≤ c.pool.chunks * B
  chunks_lt : c.pool.chunks * B < c.peak + B

theorem inv_init (B : Nat) (hB : 0 < B) : Inv B init :=
  ⟨.empty B, le_refl _, by simp [init, MemoryPool.empty], by
    simpa [init, MemoryPool.empty] using hB⟩

/-- `allocate_block` takes one more block out of the free list, whether the constructor of
`T` then returns or throws. -/
theorem inv_allocateBlock {B : Nat} (hB : 0 < B) {c : Client} (hc : Inv B c)
    {live lost : List Nat}
    (hout : (live ++ lost).Perm ((c.pool.allocateBlock B).1 :: (c.live ++ c.lost))) :
    Inv B ⟨(c.pool.allocateBlock B).2, live, lost,
      max c.peak (c.live.length + c.lost.length + 1)⟩ := by
  have hl := hc.layout.allocate hB
  have hlen := length_le_of_nodup hl.live_nodup hl.live_lt
  have hout' := hout.length_eq
  have := hc.peak_le
  have := hc.chunks_lt
  simp only [List.length_cons, List.length_append] at hlen hout'
  refine ⟨hl.perm hout.symm, by simp only [List.length_append]; omega, ?_, ?_⟩ <;>
    cases hf : c.pool.freeList <;>
    simp only [MemoryPool.allocateBlock, hf, MemoryPool.popFree, MemoryPool.allocateChunk_chunks,
      Nat.add_mul, Nat.one_mul] at hlen ⊢
  · omega
  · omega
  · have := hc.layout.length_of_null hf
    simp only [List.length_append] at this
    omega
  · omega

theorem inv_deallocate {B b : Nat} {c : Client} (hc : Inv B c) (hb : b ∈ c.live) :
    Inv B ⟨c.pool.deallocate (some b), c.live.erase b, c.lost, c.peak⟩ := by
  have hl := hc.layout.deallocate (List.mem_append_left c.lost hb)
  rw [List.erase_append_left _ hb] at hl
  have := List.length_erase_le b c.live
  have := hc.out_le_peak
  exact ⟨hl, show (c.live.erase b).length + c.lost.length ≤ c.peak by omega, hc.peak_le,
    hc.chunks_lt⟩

theorem inv_step {B : Nat} (hB : 0 < B) {c c' : Client} (hc : Inv B c) (h : Step B c c') :
    Inv B c' := by
  cases h with
  | allocate => exact inv_allocateBlock hB hc (List.Perm.refl _)
  | allocateThrows => exact inv_allocateBlock hB hc List.perm_middle
  | deallocateNull => exact hc
  | deallocate hb => exact inv_deallocate hc hb

theorem Reachable.inv {B : Nat} (hB : 0 < B) {c : Client} (h : Reachable B c) : Inv B c := by
  induction h with
  | init => exact inv_init B hB
  | step _ hs ih => exact inv_step hB ih hs

/-- `MemoryPool` along any sequence of calls with `B ≥ 1` blocks per chunk, where a `T`
constructor may throw after `allocate_block` popped its block: live and lost blocks are
pairwise distinct; the free list is an acyclic chain through exactly the blocks of all
chunks that are neither live nor lost; the free list is empty (so `allocate` calls
`allocate_chunk`) only when every block is live or lost; and `allocated_size() / 64 KiB`
is `⌈peak / B⌉`. -/
theorem reachable_pool_layout {B : Nat} (hB : 0 < B) {c : Client} (h : Reachable B c) :
    (c.live ++ c.lost).Nodup ∧
    (∃ F, Chain c.pool.next c.pool.freeList F ∧ F.Nodup ∧
      ∀ a, a ∈ F ↔ a < c.pool.chunks * B ∧ a ∉ c.live ∧ a ∉ c.lost) ∧
    (c.pool.freeList = none → c.live.length + c.lost.length = c.pool.chunks * B) ∧
    c.pool.allocatedSize / MemoryPool.chunkSize = (c.peak + B - 1) / B := by
  have hc := h.inv hB
  obtain ⟨F, hF, hnd, hmem⟩ := hc.layout.free
  refine ⟨hc.layout.live_nodup, ⟨F, hF, hnd, fun a => by simpa [not_or] using hmem a⟩,
    fun hf => by simpa using hc.layout.length_of_null hf, ?_⟩
  have := hc.peak_le
  have := hc.chunks_lt
  rw [MemoryPool.allocatedSize, Nat.mul_div_cancel _ (by decide), eq_comm]
  exact Nat.div_eq_of_lt_le (by omega) (by rw [Nat.succ_mul]; omega)

/-- The client after the first `allocate` on a pool with 15 blocks per chunk (the
geometry of a 4 KiB `BlockSize`). -/
def firstAllocate : Client :=
  ⟨(init.pool.allocateBlock 15).2, (init.pool.allocateBlock 15).1 :: init.live, init.lost,
    max init.peak (init.live.length + init.lost.length + 1)⟩

theorem reachable_pool_layout_firstAllocate :
    0 < 15 ∧ Reachable 15 firstAllocate ∧
    ((firstAllocate.live ++ firstAllocate.lost).Nodup ∧
    (∃ F, Chain firstAllocate.pool.next firstAllocate.pool.freeList F ∧ F.Nodup ∧
      ∀ a, a ∈ F ↔ a < firstAllocate.pool.chunks * 15 ∧ a ∉ firstAllocate.live ∧
        a ∉ firstAllocate.lost) ∧
    (firstAllocate.pool.freeList = none →
      firstAllocate.live.length + firstAllocate.lost.length = firstAllocate.pool.chunks * 15) ∧
    firstAllocate.pool.allocatedSize / MemoryPool.chunkSize = (firstAllocate.peak + 15 - 1) / 15) :=
  have h : Reachable 15 firstAllocate := .step .init (.allocate _)
  ⟨by decide, h, reachable_pool_layout (by decide) h⟩

/-- The client after a first `allocate` whose `T` constructor throws, on a pool with 15
blocks per chunk. -/
def throwingAllocate : Client :=
  ⟨(init.pool.allocateBlock 15).2, init.live, (init.pool.allocateBlock 15).1 :: init.lost,
    max init.peak (init.live.length + init.lost.length + 1)⟩

/-- After an `allocate` whose constructor threw, no pointer is live, yet block 0 of the new
chunk is not on the free list: the free list is not the set of blocks that are not live. -/
theorem constructor_throw_loses_block :
    Reachable 15 throwingAllocate ∧ throwingAllocate.live = [] ∧
      ¬ ∃ F, Chain throwingAllocate.pool.next throwingAllocate.pool.freeList F ∧
        ∀ a, a ∈ F ↔ a < throwingAllocate.pool.chunks * 15 ∧ a ∉ throwingAllocate.live := by
  have h : Reachable 15 throwingAllocate := .step .init (.allocateThrows _)
  refine ⟨h, rfl, fun ⟨F', hF', hmem'⟩ => ?_⟩
  obtain ⟨F, hF, -, hmem⟩ := (h.inv (by decide)).layout.free
  rw [hF.unique hF'] at hmem
  have h0 : 0 ∈ F' := (hmem' 0).2 ⟨by decide, List.not_mem_nil 0⟩
  exact ((hmem 0).1 h0).2 (List.mem_singleton_self 0)

end Client

end Memory
end AsyncToolkit
