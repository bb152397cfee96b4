import AsyncToolkit.Lockfree.BPlusTree

/-!
# async_toolkit: the operations on one B+ tree node

This module proves what the member functions of `LeafNode` and `InternalNode`, and
`split_leaf_node`, do to the slots of a node whose first `size` keys are strictly
ascending (`Ascending`).

**Loops.**  The search loops are `scan`; over keys in ascending order its predicate holds
on a prefix of the slots, so it returns the number of slots where it holds (`scan_eq_countP`).
The shifting loops `for (i = size; i > pos; --i)` and `for (i = pos; i < size - 1; ++i)`
are `shiftUp` and `shiftDown`; `shiftUp_apply` and `shiftDown_apply` say slot by slot
what they leave.

**Specifications.**  `Overwritten`, `InsertedAt`, `RemovedAt`, `SplitAt` and
`ChildInsertedAt` say, slot by slot, what a node looks like after the change the
operation is meant to make; the lemmas of the last section show that each operation
makes it, and that `insert` and `remove` keep the keys strictly ascending.
-/

namespace AsyncToolkit
namespace Lockfree
namespace BPlusTree

section Loops

variable {α : Type}

/-- The search loop from `pos` with `fuel` iterations left stops at the first slot where
`ok` fails, or after the last one. -/
theorem scan_go_spec (ok : Nat → Bool) :
    ∀ (fuel pos : Nat), pos ≤ scan.go ok pos fuel ∧ scan.go ok pos fuel ≤ pos + fuel ∧
      (∀ j, pos ≤ j → j < scan.go ok pos fuel → ok j = true) ∧
      (scan.go ok pos fuel < pos + fuel → ok (scan.go ok pos fuel) = false)
  | 0, pos => ⟨le_refl _, le_refl _, fun _ h1 h2 => absurd h2 (by simp only [scan.go]; omega),
      fun h => absurd h (by simp only [scan.go]; omega)⟩
  | fuel + 1, pos => by
    cases hok : ok pos
    · simp only [scan.go, hok, Bool.false_eq_true, if_false]
      exact ⟨le_refl _, by omega, fun j h1 h2 => absurd h2 (by omega), by simp [hok]⟩
    · simp only [scan.go, hok, if_true]
      obtain ⟨h1, h2, h3, h4⟩ := scan_go_spec ok fuel (pos + 1)
      refine ⟨by omega, by omega, fun j hj1 hj2 => ?_, fun h => h4 (by omega)⟩
      rcases Nat.eq_or_lt_of_le hj1 with rfl | hj1
      · exact hok
      · exact h3 j hj1 hj2

/-- Over `size` slots where `ok` holds on a prefix, the search loop counts the slots where
it holds. -/
theorem scan_eq_countP {ok : Nat → Bool} {size : Nat}
    (hdown : ∀ i j, i ≤ j → j < size → ok j = true → ok i = true) :
    scan ok size = (List.range size).countP ok := by
  obtain ⟨-, hle, hpre, hstop⟩ : 0 ≤ scan ok size ∧ scan ok size ≤ 0 + size ∧
      (∀ j, 0 ≤ j → j < scan ok size → ok j = true) ∧
      (scan ok size < 0 + size → ok (scan ok size) = false) := scan_go_spec ok size 0
  have hiff : ∀ j < size, ok j = true ↔ j < scan ok size := by
    refine fun j hj => ⟨fun h => ?_, hpre j (Nat.zero_le j)⟩
    by_contra hlt
    have := hstop (by omega)
    rw [hdown _ j (by omega) hj h] at this
    cases this
  suffices ∀ m ≤ size, (List.range m).countP ok = min (scan ok size) m by
    rw [this size le_rfl, min_eq_left (by omega)]
  intro m hm
  induction m with
  | zero => simp
  | succ m ih =>
    rw [List.range_succ, List.countP_append, ih (by omega), List.countP_singleton]
    by_cases h : m < scan ok size
    · rw [if_pos ((hiff m (by omega)).2 h)]; omega
    · rw [if_neg (fun h' => h ((hiff m (by omega)).1 h'))]; omega

/-- What `for (i = hi; i > lo; --i) a[i] = a[i - 1];` leaves in slot `j`. -/
theorem shiftUp_apply (lo : Nat) :
    ∀ (hi : Nat) (a : Nat → α) (j : Nat),
      shiftUp lo hi a j = if lo < j ∧ j ≤ hi then a (j - 1) else a j
  | 0, a, j => by rw [shiftUp, if_neg (by omega)]
  | hi + 1, a, j => by
    rw [shiftUp]
    split
    · rw [shiftUp_apply lo hi, Function.update_apply, Function.update_apply]
      split_ifs <;> first | rfl | omega | (subst_vars; rfl)
    · rw [if_neg (by omega)]

/-- What `for (i = lo; i < lo + count; ++i) a[i] = a[i + 1];` leaves in slot `j`. -/
theorem shiftDown_apply :
    ∀ (lo count : Nat) (a : Nat → α) (j : Nat),
      shiftDown lo count a j = if lo ≤ j ∧ j < lo + count then a (j + 1) else a j
  | lo, 0, a, j => by rw [shiftDown, if_neg (by omega)]
  | lo, count + 1, a, j => by
    rw [shiftDown, shiftDown_apply, Function.update_apply, Function.update_apply]
    split_ifs <;> first | rfl | omega | (subst_vars; rfl)

/-- The search loop stops within `size`, `ok` holds before it, and fails where it stops. -/
theorem scan_spec (ok : Nat → Bool) (size : Nat) :
    scan ok size ≤ size ∧ (∀ j < scan ok size, ok j = true) ∧
      (scan ok size < size → ok (scan ok size) = false) := by
  obtain ⟨-, h1, h2, h3⟩ := scan_go_spec ok size 0
  exact ⟨by simpa using h1, fun j hj => h2 j (Nat.zero_le j) hj, by simpa using h3⟩

end Loops

section Keys

variable {K : Type} [LinearOrder K] (keys : Nat → K) (size : Nat)

/-- The first `size` keys are strictly ascending. -/
def Ascending : Prop := ∀ j < size, ∀ i < j, keys i < keys j

instance : Decidable (Ascending keys size) :=
  inferInstanceAs (Decidable (∀ j < size, ∀ i < j, keys i < keys j))

/-- The number of keys among the first `size` that are below `k`. -/
def keysBelow (k : K) : Nat := (List.range size).countP fun i => decide (keys i < k)

/-- The number of keys among the first `size` that are at most `k`. -/
def keysAtMost (k : K) : Nat := (List.range size).countP fun i => decide (keys i ≤ k)

variable {keys size}

theorem Ascending.le (h : Ascending keys size) {i j : Nat} (hij : i ≤ j) (hj : j < size) :
    keys i ≤ keys j := by
  rcases Nat.eq_or_lt_of_le hij with rfl | hij
  · exact le_refl _
  · exact le_of_lt (h j hj i hij)

/-- Over ascending keys the search `keys[pos] < key` counts the keys below `key`. -/
theorem scan_lt_eq_keysBelow (h : Ascending keys size) (k : K) :
    scan (fun i => decide (keys i < k)) size = keysBelow keys size k :=
  scan_eq_countP fun _ _ hij hj hk => by
    simp only [decide_eq_true_eq] at hk ⊢
    exact lt_of_le_of_lt (h.le hij hj) hk

/-- Over ascending keys the search `keys[pos] <= key` counts the keys at most `key`. -/
theorem scan_le_eq_keysAtMost (h : Ascending keys size) (k : K) :
    scan (fun i => decide (keys i ≤ k)) size = keysAtMost keys size k :=
  scan_eq_countP fun _ _ hij hj hk => by
    simp only [decide_eq_true_eq] at hk ⊢
    exact le_trans (h.le hij hj) hk

/-- Where the search for `k` stops, the keys before are below `k` and the keys from there
on are not. -/
theorem scan_lt_split (h : Ascending keys size) (k : K) :
    scan (fun i => decide (keys i < k)) size ≤ size ∧
      (∀ i < scan (fun i => decide (keys i < k)) size, keys i < k) ∧
      ∀ i, scan (fun i => decide (keys i < k)) size ≤ i → i < size → k ≤ keys i := by
  obtain ⟨hle, hpre, hstop⟩ := scan_spec (fun i => decide (keys i < k)) size
  refine ⟨hle, fun i hi => by simpa using hpre i hi, fun i hi hs => ?_⟩
  have := hstop (by omega)
  simp only [decide_eq_false_iff_not, not_lt] at this
  exact le_trans this (h.le hi hs)

/-- Over ascending keys, `k` is among the first `size` keys exactly when the search stops
on it. -/
theorem mem_iff_scan_lt (h : Ascending keys size) (k : K) :
    (∃ i < size, keys i = k) ↔
      scan (fun i => decide (keys i < k)) size < size ∧
        keys (scan (fun i => decide (keys i < k)) size) = k := by
  obtain ⟨-, hbefore, hafter⟩ := scan_lt_split h k
  refine ⟨fun ⟨i, hi, hk⟩ => ?_, fun h' => ⟨_, h'⟩⟩
  have hpi : scan (fun i => decide (keys i < k)) size ≤ i :=
    not_lt.1 fun hlt => (hbefore i hlt).ne hk
  rcases Nat.eq_or_lt_of_le hpi with hpi | hpi
  · exact ⟨hpi ▸ hi, hpi ▸ hk⟩
  · have hlt := h i hi _ hpi
    rw [hk] at hlt
    exact absurd hlt (not_lt.2 (hafter _ le_rfl (by omega)))

end Keys

section Specs

variable {K V : Type}

/-- `n'` is `n` with the value in slot `pos` replaced by `v`. -/
structure Overwritten (n n' : LeafNode K V) (pos : Nat) (v : V) : Prop where
  size_eq : n'.size = n.size
  keys_eq : ∀ i, n'.keys i = n.keys i
  value_pos : n'.values pos = v
  values_ne : ∀ i, i ≠ pos → n'.values i = n.values i

/-- `n'` is `n` with `(k, v)` inserted in slot `pos`: the slots before `pos` kept, `(k, v)`
in `pos`, and the slots from `pos` on moved up one. -/
structure InsertedAt (n n' : LeafNode K V) (pos : Nat) (k : K) (v : V) : Prop where
  pos_le : pos ≤ n.size
  size_eq : n'.size = n.size + 1
  before : ∀ i < pos, n'.keys i = n.keys i ∧ n'.values i = n.values i
  at_pos : n'.keys pos = k ∧ n'.values pos = v
  after : ∀ i, pos < i → i ≤ n.size → n'.keys i = n.keys (i - 1) ∧ n'.values i = n.values (i - 1)

/-- `n'` is `n` without slot `pos`: the slots before it kept, the later ones moved down one. -/
structure RemovedAt (n n' : LeafNode K V) (pos : Nat) : Prop where
  pos_lt : pos < n.size
  size_eq : n'.size = n.size - 1
  before : ∀ i < pos, n'.keys i = n.keys i ∧ n'.values i = n.values i
  after : ∀ i, pos ≤ i → i + 1 < n.size →
    n'.keys i = n.keys (i + 1) ∧ n'.values i = n.values (i + 1)

/-- `lower` keeps the first `⌊size / 2⌋` pairs of `n` and `upper` holds the others, in
order. -/
structure SplitAt (n lower upper : LeafNode K V) : Prop where
  lower_size : lower.size = n.size / 2
  lower_slots : ∀ i < lower.size, lower.keys i = n.keys i ∧ lower.values i = n.values i
  upper_size : upper.size = n.size - n.size / 2
  upper_slots : ∀ i < upper.size,
    upper.keys i = n.keys (n.size / 2 + i) ∧ upper.values i = n.values (n.size / 2 + i)

/-- `m'` is `m` with the key `k` inserted in slot `pos` and `c` as the child right of it:
keys before `pos` and children up to `pos` kept, `c` in child slot `pos + 1`, the later
keys and children moved up one, so every other key keeps the child on its right. -/
structure ChildInsertedAt (m m' : InternalNode K) (pos : Nat) (k : K) (c : NodeRef) : Prop where
  pos_le : pos ≤ m.size
  size_eq : m'.size = m.size + 1
  keys_before : ∀ i < pos, m'.keys i = m.keys i
  key_pos : m'.keys pos = k
  keys_after : ∀ i, pos < i → i ≤ m.size → m'.keys i = m.keys (i - 1)
  children_before : ∀ j ≤ pos, m'.children j = m.children j
  child_pos : m'.children (pos + 1) = some c
  children_after : ∀ j, pos + 1 < j → j ≤ m.size + 1 → m'.children j = m.children (j - 1)

variable [LinearOrder K] {n n' : LeafNode K V} {pos : Nat} {k : K} {v : V}

/-- Inserting a key between the keys below it and those above it keeps the keys ascending. -/
theorem InsertedAt.ascending (h : InsertedAt n n' pos k v) (hn : Ascending n.keys n.size)
    (hbelow : ∀ i < pos, n.keys i < k) (habove : ∀ i, pos ≤ i → i < n.size → k < n.keys i) :
    Ascending n'.keys n'.size := by
  intro j hj i hij
  rw [h.size_eq] at hj
  have := h.pos_le
  have hkey : ∀ l, l < n.size + 1 →
      n'.keys l = if l < pos then n.keys l else if l = pos then k else n.keys (l - 1) := by
    intro l hl
    split_ifs with h1 h2
    · exact (h.before l h1).1
    · exact h2 ▸ h.at_pos.1
    · exact (h.after l (by omega) (by omega)).1
  rw [hkey j hj, hkey i (by omega)]
  split_ifs <;> first
    | omega
    | exact hn _ (by omega) _ (by omega)
    | exact hbelow _ (by omega)
    | exact habove _ (by omega) (by omega)

/-- Removing a slot keeps the keys ascending. -/
theorem RemovedAt.ascending (h : RemovedAt n n' pos) (hn : Ascending n.keys n.size) :
    Ascending n'.keys n'.size := by
  intro j hj i hij
  rw [h.size_eq] at hj
  have hkey : ∀ l, l + 1 < n.size → n'.keys l = n.keys (if l < pos then l else l + 1) := by
    intro l hl
    split_ifs with h1
    · exact (h.before l h1).1
    · exact (h.after l (by omega) hl).1
  rw [hkey j (by omega), hkey i (by omega)]
  exact hn _ (by split_ifs <;> omega) _ (by split_ifs <;> omega)

end Specs

section Operations

variable {K V : Type}

/-- The two halves of `split_leaf_node`: the leaf keeps its first `⌊size / 2⌋` pairs and a
new leaf receives the others. -/
theorem LeafNode.splitAt_halves [Inhabited K] [Inhabited V] (n : LeafNode K V) :
    SplitAt n n.keepLowerHalf (n.receiveUpperHalf LeafNode.init) := by
  refine ⟨rfl, fun _ _ => ⟨rfl, rfl⟩, by simp [receiveUpperHalf, init], fun i hi => ?_⟩
  have hi' : 0 ≤ i ∧ i < 0 + (n.size - n.size / 2) := by
    simp only [receiveUpperHalf, init] at hi
    omega
  simp only [receiveUpperHalf, copyRange_apply, if_pos hi', Nat.sub_zero, and_self]

/-- `split_leaf_node` on a leaf block that the pool does not hand out again: the new leaf
is another block, the leaf keeps its lower half and the new leaf holds the upper half. -/
theorem splitLeafNode_run [Inhabited K] [Inhabited V] (t : Tree K V) (a : Nat)
    (hb : (t.leafPool.allocateBlock poolBlocks).1 ≠ a) :
    ∃ b t', (splitLeafNode a).run t = .ok (b, t') ∧ b ≠ a ∧
      t'.leaves a = (t.leaves a).keepLowerHalf ∧
      t'.leaves b = (t.leaves a).receiveUpperHalf LeafNode.init := by
  refine ⟨(t.leafPool.allocateBlock poolBlocks).1,
    (t.createLeafNode.2.mapLeaf t.createLeafNode.1
      (LeafNode.receiveUpperHalf (t.createLeafNode.2.leaves a))).mapLeaf a LeafNode.keepLowerHalf,
    rfl, hb, ?_, ?_⟩
  · simp only [Tree.mapLeaf_leaves, Tree.createLeafNode_fst, Tree.createLeafNode_leaves,
      Function.update_same, Function.update_noteq (Ne.symm hb)]
  · simp only [Tree.mapLeaf_leaves, Tree.createLeafNode_fst, Tree.createLeafNode_leaves,
      Function.update_same, Function.update_noteq hb, Function.update_noteq (Ne.symm hb)]

variable [LinearOrder K]

namespace LeafNode

variable (order : Nat) (k : K) (v : V) (n : LeafNode K V)

theorem findPosition_le : n.findPosition k ≤ n.size := (scan_spec _ _).1

/-- A key already in the leaf gets the new value in its slot. -/
theorem insert_of_found (h : n.findPosition k < n.size ∧ n.keys (n.findPosition k) = k) :
    (n.insert order k v).1 = true ∧ Overwritten n (n.insert order k v).2 (n.findPosition k) v := by
  have e : n.insert order k v =
      (true, { n with values := Function.update n.values (n.findPosition k) v }) := by
    simp only [insert, if_pos h]
  rw [e]
  exact ⟨rfl, rfl, fun _ => rfl, Function.update_same _ _ _,
    fun i hi => Function.update_noteq hi _ _⟩

/-- An absent key goes into the slot where the search stopped, the slots from there on
moving up one. -/
theorem insert_of_absent (h : ¬(n.findPosition k < n.size ∧ n.keys (n.findPosition k) = k))
    (hroom : n.size < order) :
    (n.insert order k v).1 = true ∧ InsertedAt n (n.insert order k v).2 (n.findPosition k) k v := by
  have e : n.insert order k v = (true, { n with
      keys := Function.update (shiftUp (n.findPosition k) n.size n.keys) (n.findPosition k) k
      values := Function.update (shiftUp (n.findPosition k) n.size n.values) (n.findPosition k) v
      size := n.size + 1 }) := by
    simp only [insert, if_neg h, if_neg (not_le.2 hroom)]
  rw [e]
  refine ⟨rfl, findPosition_le k n, rfl, fun i hi => ?_,
    ⟨Function.update_same _ _ _, Function.update_same _ _ _⟩, fun i hi hi' => ?_⟩
  · have hc : ¬(n.findPosition k < i ∧ i ≤ n.size) := by omega
    simp only [Function.update_noteq (Nat.ne_of_lt hi), shiftUp_apply, if_neg hc, and_self]
  · simp only [Function.update_noteq (Nat.ne_of_gt hi), shiftUp_apply, if_pos (And.intro hi hi'),
      and_self]

/-- An absent key in a full leaf: `false`, and the leaf unchanged. -/
theorem insert_of_full (h : ¬(n.findPosition k < n.size ∧ n.keys (n.findPosition k) = k))
    (hfull : order ≤ n.size) : n.insert order k v = (false, n) := by
  simp only [insert, if_neg h, if_pos hfull]

/-- A key in the leaf: its slot is removed, the later ones moving down one. -/
theorem remove_of_found (h : n.findPosition k < n.size ∧ n.keys (n.findPosition k) = k) :
    (n.remove k).1 = true ∧ RemovedAt n (n.remove k).2 (n.findPosition k) := by
  have hne : ¬(n.size ≤ n.findPosition k ∨ n.keys (n.findPosition k) ≠ k) := fun h' =>
    h'.elim (fun h1 => absurd h.1 (not_lt.2 h1)) (fun h2 => h2 h.2)
  have e : n.remove k = (true, { n with
      keys := shiftDown (n.findPosition k) (n.size - 1 - n.findPosition k) n.keys
      values := shiftDown (n.findPosition k) (n.size - 1 - n.findPosition k) n.values
      size := n.size - 1 }) := by
    simp only [remove, if_neg hne]
  rw [e]
  refine ⟨rfl, h.1, rfl, fun i hi => ?_, fun i hi hi' => ?_⟩
  · have hc : ¬(n.findPosition k ≤ i ∧ i < n.findPosition k + (n.size - 1 - n.findPosition k)) := by
      omega
    simp only [shiftDown_apply, if_neg hc, and_self]
  · have hc : n.findPosition k ≤ i ∧ i < n.findPosition k + (n.size - 1 - n.findPosition k) := by
      omega
    simp only [shiftDown_apply, if_pos hc, and_self]

/-- An absent key: `false`, and the leaf unchanged. -/
theorem remove_of_absent (h : ¬(n.findPosition k < n.size ∧ n.keys (n.findPosition k) = k)) :
    n.remove k = (false, n) := by
  have hor : n.size ≤ n.findPosition k ∨ n.keys (n.findPosition k) ≠ k := by
    by_cases h1 : n.findPosition k < n.size
    · exact .inr fun h2 => h ⟨h1, h2⟩
    · exact .inl (not_lt.1 h1)
  simp only [remove, if_pos hor]

end LeafNode

namespace InternalNode

variable (order : Nat) (k : K) (c : NodeRef) (m : InternalNode K)

/-- With room, the key goes into the slot where the search `keys[pos] < key` stopped, and
the child right of it. -/
theorem insertChild_of_room (h : m.size < order) :
    (m.insertChild order k c).1 = true ∧
      ChildInsertedAt m (m.insertChild order k c).2
        (scan (fun i => decide (m.keys i < k)) m.size) k c := by
  have e : m.insertChild order k c = (true, { m with
      keys := Function.update (shiftUp (scan (fun i => decide (m.keys i < k)) m.size) m.size m.keys)
        (scan (fun i => decide (m.keys i < k)) m.size) k
      children := Function.update
        (shiftUp (scan (fun i => decide (m.keys i < k)) m.size + 1) (m.size + 1) m.children)
        (scan (fun i => decide (m.keys i < k)) m.size + 1) (some c)
      size := m.size + 1 }) := by
    simp only [insertChild, if_neg (not_le.2 h)]
  rw [e]
  refine ⟨rfl, (scan_spec _ _).1, rfl, fun i hi => ?_, Function.update_same _ _ _,
    fun i hi hi' => ?_, fun j hj => ?_, Function.update_same _ _ _, fun j hj hj' => ?_⟩ <;>
    dsimp only
  · rw [Function.update_noteq (Nat.ne_of_lt hi), shiftUp_apply, if_neg (by omega)]
  · rw [Function.update_noteq (Nat.ne_of_gt hi), shiftUp_apply, if_pos (And.intro hi hi')]
  · rw [Function.update_noteq (by omega), shiftUp_apply, if_neg (by omega)]
  · rw [Function.update_noteq (by omega), shiftUp_apply, if_pos (And.intro hj hj')]

/-- Over ascending keys `find_child` follows the child after the keys at most `key`. -/
theorem findChild_eq (hm : Ascending m.keys m.size) :
    m.findChild k = m.children (keysAtMost m.keys m.size k) := by
  rw [findChild, scan_le_eq_keysAtMost hm]

end InternalNode

end Operations

section Correctness

variable {K V : Type} [LinearOrder K] [Inhabited K] [Inhabited V]

/-- Over strictly ascending keys and for any key `k`: `find_position` counts the keys
below `k`; `insert` overwrites the value of an equal key, or with room inserts `(k, v)`
where the search stopped and keeps the keys strictly ascending, or in a full leaf returns
`false` and changes nothing; `remove` deletes the slot holding `k` and keeps the others in
order, or returns `false` when `k` is absent; `split_leaf_node` keeps the lower half in the
leaf and moves the upper half to a new leaf; `insert_child` with room puts `k` after the
keys below it and `c` right of it; `find_child` follows the child after the keys at most
`k`. -/
theorem node_operations_correct (order : Nat) (k : K) (v : V) (c : NodeRef)
    (n : LeafNode K V) (m : InternalNode K) (hn : Ascending n.keys n.size)
    (hm : Ascending m.keys m.size) :
    n.findPosition k = keysBelow n.keys n.size k ∧
    ((n.findPosition k < n.size ∧ n.keys (n.findPosition k) = k ∧
        (n.insert order k v).1 = true ∧ Overwritten n (n.insert order k v).2 (n.findPosition k) v) ∨
      ((∀ i < n.size, n.keys i ≠ k) ∧ n.size < order ∧ (n.insert order k v).1 = true ∧
        InsertedAt n (n.insert order k v).2 (n.findPosition k) k v ∧
        Ascending (n.insert order k v).2.keys (n.insert order k v).2.size) ∨
      ((∀ i < n.size, n.keys i ≠ k) ∧ order ≤ n.size ∧ n.insert order k v = (false, n))) ∧
    ((n.findPosition k < n.size ∧ n.keys (n.findPosition k) = k ∧ (n.remove k).1 = true ∧
        RemovedAt n (n.remove k).2 (n.findPosition k) ∧
        Ascending (n.remove k).2.keys (n.remove k).2.size) ∨
      ((∀ i < n.size, n.keys i ≠ k) ∧ n.remove k = (false, n))) ∧
    (∀ (t : Tree K V) (a : Nat), (t.leafPool.allocateBlock poolBlocks).1 ≠ a →
      ∃ b t', (splitLeafNode a).run t = .ok (b, t') ∧ b ≠ a ∧
        SplitAt (t.leaves a) (t'.leaves a) (t'.leaves b)) ∧
    (m.size < order → (m.insertChild order k c).1 = true ∧
      (∀ i < keysBelow m.keys m.size k, m.keys i < k) ∧
      (∀ i, keysBelow m.keys m.size k ≤ i → i < m.size → k ≤ m.keys i) ∧
      ChildInsertedAt m (m.insertChild order k c).2 (keysBelow m.keys m.size k) k c) ∧
    m.findChild k = m.children (keysAtMost m.keys m.size k) := by
  obtain ⟨-, hbelow, habove⟩ := scan_lt_split hn k
  have habs : ¬(n.findPosition k < n.size ∧ n.keys (n.findPosition k) = k) →
      ∀ i < n.size, n.keys i ≠ k := fun hf i hi hk => hf ((mem_iff_scan_lt hn k).1 ⟨i, hi, hk⟩)
  refine ⟨scan_lt_eq_keysBelow hn k, ?_, ?_, fun t a hb => ?_, fun hroom => ?_,
    InternalNode.findChild_eq k m hm⟩
  · by_cases hf : n.findPosition k < n.size ∧ n.keys (n.findPosition k) = k
    · exact .inl ⟨hf.1, hf.2, LeafNode.insert_of_found order k v n hf⟩
    · by_cases hroom : n.size < order
      · obtain ⟨h1, h2⟩ := LeafNode.insert_of_absent order k v n hf hroom
        exact .inr (.inl ⟨habs hf, hroom, h1, h2, h2.ascending hn hbelow fun i hi hs =>
          lt_of_le_of_ne (habove i hi hs) (Ne.symm (habs hf i hs))⟩)
      · exact .inr (.inr ⟨habs hf, not_lt.1 hroom,
          LeafNode.insert_of_full order k v n hf (not_lt.1 hroom)⟩)
  · by_cases hf : n.findPosition k < n.size ∧ n.keys (n.findPosition k) = k
    · obtain ⟨h1, h2⟩ := LeafNode.remove_of_found k n hf
      exact .inl ⟨hf.1, hf.2, h1, h2, h2.ascending hn⟩
    · exact .inr ⟨habs hf, LeafNode.remove_of_absent k n hf⟩
  · obtain ⟨b, t', hrun, hba, hla, hlb⟩ := splitLeafNode_run t a hb
    exact ⟨b, t', hrun, hba, hla ▸ hlb ▸ LeafNode.splitAt_halves (t.leaves a)⟩
  · obtain ⟨h1, h2⟩ := InternalNode.insertChild_of_room order k c m hroom
    obtain ⟨-, hb, ha⟩ := scan_lt_split hm k
    rw [scan_lt_eq_keysBelow hm k] at h2 hb ha
    exact ⟨h1, hb, ha, h2⟩

/-- A leaf with the keys `10, 20` and the values `0, 1`. -/
def twoKeyLeaf : LeafNode Nat Nat := ⟨2, fun i => 10 * (i + 1), fun i => i, none⟩

/-- An internal node with the keys `10, 20` and no children yet. -/
def twoKeyNode : InternalNode Nat := ⟨2, fun i => 10 * (i + 1), fun _ => none⟩

theorem node_operations_correct_twoKey :
    Ascending twoKeyLeaf.keys twoKeyLeaf.size ∧ Ascending twoKeyNode.keys twoKeyNode.size ∧
    twoKeyLeaf.findPosition 15 = keysBelow twoKeyLeaf.keys twoKeyLeaf.size 15 ∧
    ((twoKeyLeaf.findPosition 15 < twoKeyLeaf.size ∧
        twoKeyLeaf.keys (twoKeyLeaf.findPosition 15) = 15 ∧ (twoKeyLeaf.insert 3 15 7).1 = true ∧
        Overwritten twoKeyLeaf (twoKeyLeaf.insert 3 15 7).2 (twoKeyLeaf.findPosition 15) 7) ∨
      ((∀ i < twoKeyLeaf.size, twoKeyLeaf.keys i ≠ 15) ∧ twoKeyLeaf.size < 3 ∧
        (twoKeyLeaf.insert 3 15 7).1 = true ∧
        InsertedAt twoKeyLeaf (twoKeyLeaf.insert 3 15 7).2 (twoKeyLeaf.findPosition 15) 15 7 ∧
        Ascending (twoKeyLeaf.insert 3 15 7).2.keys (twoKeyLeaf.insert 3 15 7).2.size) ∨
      ((∀ i < twoKeyLeaf.size, twoKeyLeaf.keys i ≠ 15) ∧ 3 ≤ twoKeyLeaf.size ∧
        twoKeyLeaf.insert 3 15 7 = (false, twoKeyLeaf))) ∧
    ((twoKeyLeaf.findPosition 15 < twoKeyLeaf.size ∧
        twoKeyLeaf.keys (twoKeyLeaf.findPosition 15) = 15 ∧ (twoKeyLeaf.remove 15).1 = true ∧
        RemovedAt twoKeyLeaf (twoKeyLeaf.remove 15).2 (twoKeyLeaf.findPosition 15) ∧
        Ascending (twoKeyLeaf.remove 15).2.keys (twoKeyLeaf.remove 15).2.size) ∨
      ((∀ i < twoKeyLeaf.size, twoKeyLeaf.keys i ≠ 15) ∧
        twoKeyLeaf.remove 15 = (false, twoKeyLeaf))) ∧
    (∀ (t : Tree Nat Nat) (a : Nat), (t.leafPool.allocateBlock poolBlocks).1 ≠ a →
      ∃ b t', (splitLeafNode a).run t = .ok (b, t') ∧ b ≠ a ∧
        SplitAt (t.leaves a) (t'.leaves a) (t'.leaves b)) ∧
    (twoKeyNode.size < 3 → (twoKeyNode.insertChild 3 15 (.leaf 5)).1 = true ∧
      (∀ i < keysBelow twoKeyNode.keys twoKeyNode.size 15, twoKeyNode.keys i < 15) ∧
      (∀ i, keysBelow twoKeyNode.keys twoKeyNode.size 15 ≤ i → i < twoKeyNode.size →
        15 ≤ twoKeyNode.keys i) ∧
      ChildInsertedAt twoKeyNode (twoKeyNode.insertChild 3 15 (.leaf 5)).2
        (keysBelow twoKeyNode.keys twoKeyNode.size 15) 15 (.leaf 5)) ∧
    twoKeyNode.findChild 15 = twoKeyNode.children (keysAtMost twoKeyNode.keys twoKeyNode.size 15) :=
  ⟨by decide, by decide,
    node_operations_correct 3 15 7 (.leaf 5) twoKeyLeaf twoKeyNode (by decide) (by decide)⟩

/-- Inserting `15` into the leaf `10, 20` puts it in slot 1 and moves `20` to slot 2. -/
example : ((twoKeyLeaf.insert 3 15 7).2.keys 1, (twoKeyLeaf.insert 3 15 7).2.keys 2,
    (twoKeyLeaf.insert 3 15 7).2.size) = (15, 20, 3) := by decide

end Correctness

end BPlusTree
end Lockfree
end AsyncToolkit
