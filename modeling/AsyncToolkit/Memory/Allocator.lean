import Mathlib.Algebra.Group.Nat.Basic
import Mathlib.Logic.Function.Basic
import Mathlib.Data.List.Basic

/-!
# async_toolkit: the size-class allocator

This module models `memory::SizeClass`, `memory::ThreadCache` and `memory::Allocator` of
`include/async_toolkit/memory/allocator.hpp`.  `size_t` is `BitVec 64`, so that
`(size + 15) & ~15` and `size_class / 16 - 1` are computed as the code computes them.

**Size classes.**  `get_size_class` rounds a size up to a multiple of 16 bytes up to
`TINY_MAX`, of 128 up to `SMALL_MAX` and of 4096 up to `MEDIUM_MAX`; a larger size is its
own class.

**Thread cache.**  `free_lists_` is a `std::array` of 32 vectors, indexed by
`get_index(size_class) = size_class / 16 - 1`.  `allocate` pops the back of the free list of
its class, or else calls `fetch_from_central_cache`; `deallocate` pushes onto it while it
holds fewer than `CACHE_SIZE` blocks, or else calls `return_to_central_cache`.  The
repository declares both central-cache calls and defines neither, so the model is
parametric in them: `allocate` takes the pointer the central cache hands out, and a block
returned to it leaves the thread cache alone.  An index past the array is undefined
behaviour, a fault here.

**Allocator.**  `allocate` sends sizes above `MEDIUM_MAX` to `allocate_huge`, which writes
a `BlockHeader` in front of the block `mmap` returned; other sizes go to the calling
thread's cache.  `allocate_huge` tests the result of `mmap` against `nullptr`, but `mmap`
reports failure with `MAP_FAILED`, `(void *) -1`: the header is then written at the top of
the address space, where it does not fit, which is a fault here.  `deallocate` reads the
header in front of the pointer: a huge block is unmapped with the header's
`original_size`, any other goes back to the thread cache with the header's `size`.  Memory holds some header at every address, so a block from the
thread cache is freed with whatever its header reads.

**Results.**  `toNat_getSizeClass` says what the rounding is; `get_size_class_idempotent`
and `get_size_class_monotone` follow from it.  `allocator_allocate_faults_iff`: the
small path indexes `free_lists_` in bounds only for sizes from 1 to 512, so every size from
513 to `MEDIUM_MAX`, and size 0, is undefined behaviour, and so is a huge size whose `mmap`
failed.  `thread_cache_reuses_last_freed`:
a block freed into a free list with room is the next one handed out for its class, and the
cache is as before.  `free_lists_bounded`: no free list ever holds more than `CACHE_SIZE`
blocks.  `huge_block_round_trip`: freeing a huge block unmaps exactly the mapping
`allocate_huge` made, whatever size the caller passes.
-/

namespace AsyncToolkit
namespace Memory

/-- Undefined behaviour of the allocator: `free_lists_[i]` with `i` past the array, or a
`BlockHeader` written where it does not fit below the top of the address space. -/
inductive AllocFault
  | outOfRange
  | headerWrite
  deriving DecidableEq, Repr

/-! ## Rounding by masks -/

/-- Clearing the low `k` bits of a `w`-bit number rounds it down to a multiple of `2^k`. -/
theorem land_two_pow_sub_two_pow {x w k : Nat} (hk : k ≤ w) (hx : x < 2 ^ w) :
    x &&& (2 ^ w - 2 ^ k) = x / 2 ^ k * 2 ^ k := by
  have hm : 2 ^ w - 2 ^ k = 2 ^ k * (2 ^ (w - k) - 1) := by
    rw [Nat.mul_sub_one, ← Nat.pow_add, Nat.add_sub_cancel' hk]
  refine Nat.eq_of_testBit_eq fun i => ?_
  rw [Nat.testBit_and, hm, Nat.mul_comm (x / 2 ^ k), Nat.testBit_mul_pow_two,
    Nat.testBit_mul_pow_two, Nat.testBit_two_pow_sub_one, ← Nat.shiftRight_eq_div_pow,
    Nat.testBit_shiftRight]
  by_cases hi : k ≤ i
  · rw [Nat.add_sub_cancel' hi]
    by_cases hw : i < w
    · simp [hi, show i - k < w - k by omega]
    · have hx' : x < 2 ^ i := lt_of_lt_of_le hx (Nat.pow_le_pow_right (by omega) (by omega))
      simp [hi, show ¬i - k < w - k by omega, Nat.testBit_lt_two_pow hx']
  · simp [hi]

/-- `(x + (g - 1)) & ~(g - 1)` for `g = 2^k`, when the sum does not wrap: `x` rounded up to
a multiple of `g`. -/
theorem toNat_add_and_not {x m : BitVec 64} {g : Nat} (k : Nat) (hg : g = 2 ^ k) (hk : k ≤ 64)
    (hm : m.toNat = g - 1) (hx : x.toNat + m.toNat < 2 ^ 64) :
    ((x + m) &&& ~~~m).toNat = (x.toNat + (g - 1)) / g * g := by
  have hpos : 1 ≤ 2 ^ k := Nat.one_le_two_pow
  have hle : 2 ^ k ≤ 2 ^ 64 := Nat.pow_le_pow_right (by omega) hk
  rw [BitVec.toNat_and, BitVec.toNat_not, BitVec.toNat_add, Nat.mod_eq_of_lt hx, hm, hg,
    show 2 ^ 64 - 1 - (2 ^ k - 1) = 2 ^ 64 - 2 ^ k by omega]
  exact land_two_pow_sub_two_pow hk (by omega)

/-! ## Size classes -/

namespace SizeClass

/-- `TINY_MAX`. -/
def tinyMax : BitVec 64 := 256

/-- `SMALL_MAX`. -/
def smallMax : BitVec 64 := 4096

/-- `MEDIUM_MAX`. -/
def mediumMax : BitVec 64 := 65536

/-- `SizeClass::get_size_class(size)`. -/
def getSizeClass (size : BitVec 64) : BitVec 64 :=
  if size ≤ tinyMax then (size + 15) &&& ~~~15
  else if size ≤ smallMax then (size + 127) &&& ~~~127
  else if size ≤ mediumMax then (size + 4095) &&& ~~~4095
  else size

/-- `get_size_class` in numbers: no sum wraps. -/
theorem toNat_getSizeClass (size : BitVec 64) :
    (getSizeClass size).toNat =
      if size.toNat ≤ 256 then (size.toNat + 15) / 16 * 16
      else if size.toNat ≤ 4096 then (size.toNat + 127) / 128 * 128
      else if size.toNat ≤ 65536 then (size.toNat + 4095) / 4096 * 4096
      else size.toNat := by
  have h1 : tinyMax.toNat = 256 := rfl
  have h2 : smallMax.toNat = 4096 := rfl
  have h3 : mediumMax.toNat = 65536 := rfl
  simp only [getSizeClass, BitVec.le_def, h1, h2, h3]
  split_ifs
  · exact toNat_add_and_not 4 rfl (by omega) rfl
      (by have : (15 : BitVec 64).toNat = 15 := rfl; omega)
  · exact toNat_add_and_not 7 rfl (by omega) rfl
      (by have : (127 : BitVec 64).toNat = 127 := rfl; omega)
  · exact toNat_add_and_not 12 rfl (by omega) rfl
      (by have : (4095 : BitVec 64).toNat = 4095 := rfl; omega)
  · rfl

example : getSizeClass 300 = 384 := by decide

/-- Rounding twice is rounding once: `Allocator::allocate` passes a class to
`ThreadCache::allocate`, which rounds it again. -/
theorem get_size_class_idempotent (size : BitVec 64) :
    getSizeClass (getSizeClass size) = getSizeClass size := by
  apply BitVec.eq_of_toNat_eq
  have hc := toNat_getSizeClass size
  rw [toNat_getSizeClass (getSizeClass size)]
  generalize (getSizeClass size).toNat = c at hc ⊢
  split_ifs at hc <;> subst hc
  · rw [if_pos (by omega)]; omega
  · rw [if_neg (by omega), if_pos (by omega)]; omega
  · rw [if_neg (by omega), if_neg (by omega), if_pos (by omega)]; omega
  · rw [if_neg (by omega), if_neg (by omega), if_neg (by omega)]

/-- A larger size never gets a smaller class, across the bands too. -/
theorem get_size_class_monotone {s t : BitVec 64} (h : s ≤ t) :
    getSizeClass s ≤ getSizeClass t := by
  rw [BitVec.le_def] at h ⊢
  have hs := toNat_getSizeClass s
  have ht := toNat_getSizeClass t
  generalize (getSizeClass s).toNat = a at hs ⊢
  generalize (getSizeClass t).toNat = b at ht ⊢
  split_ifs at hs <;> subst hs
  · split_ifs at ht <;> omega
  · rw [if_neg (by omega)] at ht; split_ifs at ht <;> omega
  · rw [if_neg (by omega), if_neg (by omega)] at ht; split_ifs at ht <;> omega
  · rw [if_neg (by omega), if_neg (by omega), if_neg (by omega)] at ht; omega

theorem get_size_class_monotone_bands :
    (256 : BitVec 64) ≤ 257 ∧ getSizeClass 256 ≤ getSizeClass 257 :=
  ⟨by decide, get_size_class_monotone (by decide)⟩

end SizeClass

open SizeClass

/-! ## The thread cache -/

/-- `NUM_SIZE_CLASSES`. -/
def numSizeClasses : Nat := 32

/-- `CACHE_SIZE`. -/
def cacheSize : Nat := 1024

/-- `ThreadCache::get_index(size_class)`: `size_class / 16 - 1`, in `size_t`. -/
def getIndex (sizeClass : BitVec 64) : BitVec 64 := sizeClass / 16 - 1

/-- The free list a size maps to lies in `free_lists_` exactly for sizes from 1 to 512:
size 0 has class 0 and index `SIZE_MAX`, and every class from 640 on indexes past 32. -/
theorem getIndex_getSizeClass_lt_iff (size : BitVec 64) :
    (getIndex (getSizeClass size)).toNat < numSizeClasses ↔
      1 ≤ size.toNat ∧ size.toNat ≤ 512 := by
  have hc := toNat_getSizeClass size
  have hlt := (getSizeClass size).isLt
  have h16 : (16 : BitVec 64).toNat = 16 := rfl
  have h1 : (1 : BitVec 64).toNat = 1 := rfl
  simp only [getIndex, BitVec.toNat_sub, BitVec.toNat_udiv, h16, h1, numSizeClasses]
  split_ifs at hc <;> omega

/-- A class lies in the thread cache's range exactly when its size does. -/
theorem one_le_getSizeClass_le_iff (size : BitVec 64) :
    (1 ≤ (getSizeClass size).toNat ∧ (getSizeClass size).toNat ≤ 512) ↔
      1 ≤ size.toNat ∧ size.toNat ≤ 512 := by
  rw [toNat_getSizeClass]
  split_ifs <;> omega

/-- `ThreadCache`: the 32 free lists of `free_lists_`, the back of each being its last
element. -/
@[ext]
structure ThreadCache where
  freeLists : List (List (BitVec 64))
  length_freeLists : freeLists.length = numSizeClasses

namespace ThreadCache

/-- The `thread_local ThreadCache cache;` of a thread, before its first call. -/
def empty : ThreadCache := ⟨List.replicate numSizeClasses [], List.length_replicate _ _⟩

/-- Free list `i` replaced by `l`. -/
def setFreeList (c : ThreadCache) (i : Nat) (l : List (BitVec 64)) : ThreadCache :=
  ⟨c.freeLists.set i l, by rw [List.length_set, c.length_freeLists]⟩

/-- `ThreadCache::allocate(size)`; `fetched` is what `fetch_from_central_cache(size_class)`
returns. -/
def allocate (c : ThreadCache) (size fetched : BitVec 64) :
    Except AllocFault (BitVec 64 × ThreadCache) :=
  let i := (getIndex (getSizeClass size)).toNat
  if h : i < c.freeLists.length then
    match c.freeLists[i].getLast? with
    | some ptr => pure (ptr, c.setFreeList i c.freeLists[i].dropLast)
    | none => pure (fetched, c)
  else throw .outOfRange

/-- `ThreadCache::deallocate(ptr, size)`; `return_to_central_cache(ptr, size_class)` takes
the block out of the thread cache's hands. -/
def deallocate (c : ThreadCache) (ptr size : BitVec 64) : Except AllocFault ThreadCache :=
  let i := (getIndex (getSizeClass size)).toNat
  if h : i < c.freeLists.length then
    if c.freeLists[i].length < cacheSize then pure (c.setFreeList i (c.freeLists[i] ++ [ptr]))
    else pure c
  else throw .outOfRange

/-- The thread caches reached from the empty one by calls of `allocate` and `deallocate`. -/
inductive Reachable : ThreadCache → Prop
  | empty : Reachable empty
  | allocate {c c' : ThreadCache} {size fetched ptr : BitVec 64} :
      Reachable c → c.allocate size fetched = .ok (ptr, c') → Reachable c'
  | deallocate {c c' : ThreadCache} {ptr size : BitVec 64} :
      Reachable c → c.deallocate ptr size = .ok c' → Reachable c'

@[simp] theorem setFreeList_freeLists (c : ThreadCache) (i : Nat) (l : List (BitVec 64)) :
    (c.setFreeList i l).freeLists = c.freeLists.set i l := rfl

@[simp] theorem setFreeList_setFreeList (c : ThreadCache) (i : Nat) (l l' : List (BitVec 64)) :
    (c.setFreeList i l).setFreeList i l' = c.setFreeList i l' :=
  ThreadCache.ext (List.set_set _ _ _ _)

theorem setFreeList_getElem_self (c : ThreadCache) {i : Nat} (hi : i < c.freeLists.length) :
    c.setFreeList i c.freeLists[i] = c := by
  refine ThreadCache.ext (List.ext_getElem? fun j => ?_)
  rw [setFreeList_freeLists]
  by_cases h : i = j
  · subst h
    simp [List.getElem?_set, hi]
  · simp [List.getElem?_set_ne h]

theorem lt_length_iff (c : ThreadCache) (size : BitVec 64) :
    (getIndex (getSizeClass size)).toNat < c.freeLists.length ↔
      1 ≤ size.toNat ∧ size.toNat ≤ 512 := by
  rw [c.length_freeLists]
  exact getIndex_getSizeClass_lt_iff size

/-- `allocate` faults exactly where the index misses the array. -/
theorem allocate_ok_iff (c : ThreadCache) (size fetched : BitVec 64) :
    (∃ r, c.allocate size fetched = .ok r) ↔ 1 ≤ size.toNat ∧ size.toNat ≤ 512 := by
  rw [← c.lt_length_iff size]
  unfold allocate
  dsimp only
  split
  · refine ⟨fun _ => ‹_›, fun _ => ?_⟩
    split
    · exact ⟨_, rfl⟩
    · exact ⟨_, rfl⟩
  · exact ⟨(fun ⟨_, h⟩ => nomatch h), fun h => absurd h ‹_›⟩

/-- A block freed into a free list with room is the next one handed out for its class, and
the thread cache is as it was. -/
theorem thread_cache_reuses_last_freed (c : ThreadCache) {size : BitVec 64}
    (hs : 1 ≤ size.toNat ∧ size.toNat ≤ 512)
    (hroom : (c.freeLists.getD (getIndex (getSizeClass size)).toNat []).length < cacheSize)
    (ptr fetched : BitVec 64) :
    (c.deallocate ptr size >>= fun c' => c'.allocate size fetched) = .ok (ptr, c) := by
  have hi := (c.lt_length_iff size).2 hs
  have hroom' : c.freeLists[(getIndex (getSizeClass size)).toNat].length < cacheSize := by
    simpa [List.getElem?_eq_getElem hi] using hroom
  unfold deallocate
  simp only [dif_pos hi, if_pos hroom']
  show (c.setFreeList _ _).allocate size fetched = _
  unfold allocate
  simp only [setFreeList_freeLists, List.length_set, dif_pos hi, List.getElem_set_self,
    List.getLast?_concat, List.dropLast_concat, setFreeList_setFreeList,
    setFreeList_getElem_self c hi]
  rfl

theorem thread_cache_reuses_last_freed_empty :
    (1 ≤ (24 : BitVec 64).toNat ∧ (24 : BitVec 64).toNat ≤ 512) ∧
      (empty.freeLists.getD (getIndex (getSizeClass 24)).toNat []).length < cacheSize ∧
      (empty.deallocate 4096 24 >>= fun c' => c'.allocate 24 0) = .ok (4096, empty) :=
  ⟨by decide, by decide, thread_cache_reuses_last_freed empty (by decide) (by decide) 4096 0⟩

/-- No free list ever holds more than `CACHE_SIZE` blocks. -/
theorem free_lists_bounded {c : ThreadCache} (h : Reachable c) :
    ∀ l ∈ c.freeLists, l.length ≤ cacheSize := by
  induction h with
  | empty => simp [empty, List.mem_replicate]
  | allocate _ ha ih =>
    unfold allocate at ha
    dsimp only at ha
    split at ha
    · split at ha
      · cases ha
        intro l hl
        rcases List.mem_or_eq_of_mem_set hl with hl | rfl
        · exact ih l hl
        · simpa using Nat.le_trans (Nat.sub_le _ _) (ih _ (List.getElem_mem _))
      · cases ha; exact ih
    · cases ha
  | deallocate _ hd ih =>
    unfold deallocate at hd
    dsimp only at hd
    split at hd
    · split at hd
      · cases hd
        intro l hl
        rcases List.mem_or_eq_of_mem_set hl with hl | rfl
        · exact ih l hl
        · simpa using ‹_ < cacheSize›
      · cases hd; exact ih
    · cases hd

/-- Block 4096 freed as a 24-byte block: it lands on free list 1. -/
def oneFreed : ThreadCache := empty.setFreeList 1 [4096]

theorem free_lists_bounded_oneFreed :
    Reachable oneFreed ∧ ∀ l ∈ oneFreed.freeLists, l.length ≤ cacheSize :=
  have h : Reachable oneFreed := .deallocate .empty (rfl : empty.deallocate 4096 24 = _)
  ⟨h, free_lists_bounded h⟩

end ThreadCache

/-! ## The allocator -/

/-- `BlockHeader`. -/
structure BlockHeader where
  size : BitVec 64
  originalSize : BitVec 64
  isHugePage : Bool
  next : BitVec 64
  deriving DecidableEq, Repr

/-- `sizeof(BlockHeader)`: three words and a `bool` padded to a word. -/
def headerBytes : BitVec 64 := 32

/-- What the allocator works on in one thread: that thread's `thread_cache()`, the header
that memory holds at each address, and the `munmap` calls made, in order. -/
structure Heap where
  cache : ThreadCache
  headers : BitVec 64 → BlockHeader
  munmaps : List (BitVec 64 × BitVec 64)

namespace Heap

/-- A thread's allocator before its first call, memory reading as zeros. -/
def zeroed : Heap := ⟨ThreadCache.empty, fun _ => ⟨0, 0, false, 0⟩, []⟩

/-- `MAP_FAILED`, `(void *) -1`: what `mmap` returns when it fails. -/
def mapFailed : BitVec 64 := BitVec.allOnes 64

/-- `Allocator::allocate_huge(size)`; `ptr` is what `mmap` returned for
`size + sizeof(BlockHeader)` bytes.  `if (ptr)` lets `MAP_FAILED` through, and the header
written there does not fit below the top of the address space: a fault. -/
def allocateHuge (h : Heap) (size ptr : BitVec 64) : Except AllocFault (BitVec 64 × Heap) :=
  let totalSize := size + headerBytes
  if ptr ≠ 0 then
    if 2 ^ 64 < ptr.toNat + headerBytes.toNat then throw .headerWrite
    else pure (ptr + headerBytes,
      { h with headers := Function.update h.headers ptr ⟨size, totalSize, true, 0⟩ })
  else pure (0, h)

/-- `Allocator::allocate(size)`; `fetched` is what the central cache hands the thread cache,
`mapped` what `mmap` returns. -/
def allocate (h : Heap) (size fetched mapped : BitVec 64) :
    Except AllocFault (BitVec 64 × Heap) :=
  if size > mediumMax then h.allocateHuge size mapped
  else (fun r => (r.1, { h with cache := r.2 })) <$> h.cache.allocate (getSizeClass size) fetched

/-- `Allocator::deallocate(ptr, size)`, with `deallocate_huge` inlined: the header in front
of `ptr` decides, and `size` is not read. -/
def deallocate (h : Heap) (ptr _size : BitVec 64) : Except AllocFault Heap :=
  if ptr = 0 then pure h
  else
    let header := h.headers (ptr - headerBytes)
    if header.isHugePage then
      pure { h with munmaps := h.munmaps ++ [(ptr - headerBytes, header.originalSize)] }
    else (fun c => { h with cache := c }) <$> h.cache.deallocate ptr header.size

/-- `allocate_huge` faults exactly when `mmap` returned a non-null address where the header
does not fit, `MAP_FAILED` among them. -/
theorem allocateHuge_error_iff (h : Heap) (size ptr : BitVec 64) :
    (∃ r, h.allocateHuge size ptr = .error r) ↔ ptr ≠ 0 ∧ 2 ^ 64 - 32 < ptr.toNat := by
  have hb : headerBytes.toNat = 32 := rfl
  unfold allocateHuge
  dsimp only
  by_cases hp : ptr ≠ 0
  · rw [if_pos hp, hb]
    by_cases hw : 2 ^ 64 < ptr.toNat + 32
    · rw [if_pos hw]
      exact ⟨fun _ => ⟨hp, by omega⟩, fun _ => ⟨_, rfl⟩⟩
    · rw [if_neg hw]
      exact ⟨(fun ⟨_, h⟩ => nomatch h), fun ⟨_, h⟩ => by omega⟩
  · rw [if_neg hp]
    exact ⟨(fun ⟨_, h⟩ => nomatch h), fun ⟨h, _⟩ => absurd h hp⟩

/-- `Allocator::allocate` is undefined behaviour exactly for size 0, for the sizes from 513 to
`MEDIUM_MAX`, whose index misses `free_lists_`, and for a huge size whose `mmap` returned a
non-null address where the header does not fit: `MAP_FAILED`, which `if (ptr)` lets through.
Sizes from 1 to 512, and huge sizes with any other `mmap` result, are served. -/
theorem allocator_allocate_faults_iff (h : Heap) (size fetched mapped : BitVec 64) :
    (∃ r, h.allocate size fetched mapped = .error r) ↔
      size.toNat = 0 ∨ 512 < size.toNat ∧ size.toNat ≤ 65536 ∨
        65536 < size.toNat ∧ mapped ≠ 0 ∧ 2 ^ 64 - 32 < mapped.toNat := by
  have hm : mediumMax.toNat = 65536 := rfl
  unfold allocate
  by_cases hs : size > mediumMax
  · rw [if_pos hs, allocateHuge_error_iff]
    rw [gt_iff_lt, BitVec.lt_def, hm] at hs
    constructor
    · exact fun h' => .inr (.inr ⟨hs, h'⟩)
    · rintro (h' | h' | ⟨-, h'⟩) <;> [omega; omega; exact h']
  · rw [if_neg hs]
    rw [gt_iff_lt, BitVec.lt_def, hm] at hs
    have hok := ThreadCache.allocate_ok_iff h.cache (getSizeClass size) fetched
    rw [one_le_getSizeClass_le_iff] at hok
    constructor
    · rintro ⟨e, he⟩
      have : ¬(1 ≤ size.toNat ∧ size.toNat ≤ 512) := fun h' => by
        obtain ⟨r, hr⟩ := hok.2 h'
        rw [hr] at he
        cases he
      omega
    · intro h'
      cases hr : h.cache.allocate (getSizeClass size) fetched with
      | error e => exact ⟨e, rfl⟩
      | ok r =>
        have := hok.1 ⟨r, hr⟩
        omega

/-- `allocate(600)`: class 640, index 39, past the 32 free lists. -/
example : ∃ e, zeroed.allocate 600 0 0 = .error e := ⟨_, rfl⟩

/-- A huge `allocate` whose `mmap` failed writes its header at `MAP_FAILED`. -/
example : zeroed.allocate 65537 0 mapFailed = .error .headerWrite := rfl

/-- Freeing a huge block unmaps exactly the mapping `allocate_huge` made, with the length it
asked `mmap` for, whatever size the caller passes: the header written in front of the block
is the one read back.  This holds for every mapping below `2^64 - sizeof(BlockHeader)`. -/
theorem huge_block_round_trip (h : Heap) {size : BitVec 64} (hs : mediumMax < size)
    (fetched : BitVec 64) {ptr : BitVec 64} (hp : ptr ≠ 0) (hfit : ptr.toNat < 2 ^ 64 - 32)
    (size' : BitVec 64) :
    ∃ h', h.allocate size fetched ptr = .ok (ptr + headerBytes, h') ∧
      h'.deallocate (ptr + headerBytes) size' =
        .ok { h' with munmaps := h.munmaps ++ [(ptr, size + headerBytes)] } := by
  have hb : headerBytes.toNat = 32 := rfl
  have hwrap : ptr + headerBytes ≠ 0 := fun h0 => by
    have := congrArg BitVec.toNat h0
    rw [BitVec.toNat_add, hb, Nat.mod_eq_of_lt (by omega)] at this
    simp at this
  refine ⟨{ h with headers := Function.update h.headers ptr ⟨size, size + headerBytes, true, 0⟩ },
    ?_, ?_⟩
  · have hw : ¬ 2 ^ 64 < ptr.toNat + 32 := by omega
    simp only [allocate, allocateHuge, if_pos hs, if_pos hp, hb, if_neg hw]
    rfl
  · have hsub : ptr + headerBytes - headerBytes = ptr := BitVec.add_sub_cancel _ _
    unfold deallocate
    rw [if_neg hwrap]
    rw [hsub]
    simp only [Function.update_same, ↓reduceIte]
    rfl

theorem huge_block_round_trip_zeroed :
    mediumMax < 65537 ∧ (4096 : BitVec 64) ≠ 0 ∧ (4096 : BitVec 64).toNat < 2 ^ 64 - 32 ∧
      ∃ h', zeroed.allocate 65537 0 4096 = .ok (4096 + headerBytes, h') ∧
        h'.deallocate (4096 + headerBytes) 1 =
          .ok { h' with munmaps := zeroed.munmaps ++ [(4096, 65537 + headerBytes)] } :=
  ⟨by decide, by decide, by decide,
    huge_block_round_trip zeroed (by decide) 0 (by decide) (by decide) 1⟩

end Heap

end Memory
end AsyncToolkit
