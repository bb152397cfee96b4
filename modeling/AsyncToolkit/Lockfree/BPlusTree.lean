import AsyncToolkit.Memory.MemoryPool

/-!
# async_toolkit: the B+ tree

This module models `lockfree::BPlusTree<Key, Value, Order>` of
`include/async_toolkit/lockfree/bptree.hpp` as the code runs in one thread.

**State.**  A node is a block of one of the two pools `leaf_pool_` and
`internal_pool_` (`memory::MemoryPool` with the default `BlockSize` 4096, so
`65536 / 4112 = 15` blocks a chunk).  A `Node*` is `NodeRef`: the block and its
dynamic type `is_leaf`; `nullptr` is `none`.  The arrays `keys`, `values` and
`children` are functions of the index, so that entries past `size` keep the stale
values the code leaves there; a fresh node has value-initialised arrays (`Key{}`,
`Value{}`, `nullptr`).  A freed block keeps its contents, as the pool does.

**Operations.**  Every block of a member function that rewrites one node is a
function on nodes (`LeafNode.insert`, `InternalNode.absorb`, …), and the member
functions are computations in `TreeM` that apply them to the blocks they name.
A member function stops with a `Fault` where the code dereferences `nullptr` or
`static_cast`s a node to the kind it is not.  The shifting and copying `for`
loops of the source are `scan`, `shiftUp`, `shiftDown` and `copyRange`.
Unbounded loops (`find_leaf_node`, the leaf chain of `range_query`) take as fuel
the number of blocks the pool has ever handed out, which an acyclic walk cannot
exceed.  `parent_path` is kept nearest parent first, so `parent_path.back()` is
its head.  The `parent` back pointers are written but never read by the code;
only the dereference that writes one is kept (`touch`).

**Sessions.**  `treeAfter order calls` is the tree after the public calls
`calls` (latest first) made one after another on a new tree, and
`replies order calls` what each of them returned.

**Results.**  `copyRange_apply` says what the copy loop leaves in each slot; the
properties of insertion are in `BPlusTreeSplit`.
-/

namespace AsyncToolkit
namespace Lockfree
namespace BPlusTree

open Memory

/-- A non-null `Node*`: the block it points to and its dynamic type. -/
inductive NodeRef
  | leaf (a : Nat)
  | internal (a : Nat)
  deriving DecidableEq, Repr

/-- Where a call stops short of returning: a `nullptr` dereferenced, a
`static_cast` to the wrong node kind, or a loop past its fuel. -/
inductive Fault
  | nullDeref
  | badCast
  | outOfFuel
  deriving DecidableEq, Repr

/-- Replies of sessions are compared, so `Except` gets decidable equality. -/
instance instDecidableEqExcept {ε β : Type} [DecidableEq ε] [DecidableEq β] :
    DecidableEq (Except ε β) := fun a b =>
  match a, b with
  | .error x, .error y => decidable_of_iff (x = y) ⟨congrArg _, fun h => by cases h; rfl⟩
  | .ok x, .ok y => decidable_of_iff (x = y) ⟨congrArg _, fun h => by cases h; rfl⟩
  | .error _, .ok _ => isFalse fun h => by cases h
  | .ok _, .error _ => isFalse fun h => by cases h

/-- Blocks a chunk of `MemoryPool<T, 4096>` holds: `65536 / sizeof(Block)`. -/
def poolBlocks : Nat := 15

section Loops

variable {α : Type}

/-- `size_t pos = 0; while (pos < size && ok(pos)) ++pos;` -/
def scan (ok : Nat → Bool) (size : Nat) : Nat := go 0 size
where
  /-- The loop from `pos`, with `fuel = size - pos` iterations left. -/
  go (pos : Nat) : Nat → Nat
    | 0 => pos
    | fuel + 1 => if ok pos then go (pos + 1) fuel else pos

/-- `for (size_t i = hi; i > lo; --i) a[i] = a[i - 1];` -/
def shiftUp (lo : Nat) : Nat → (Nat → α) → Nat → α
  | 0, a => a
  | hi + 1, a => if lo < hi + 1 then shiftUp lo hi (Function.update a (hi + 1) (a hi)) else a

/-- `for (size_t i = lo; i < lo + count; ++i) a[i] = a[i + 1];` -/
def shiftDown (lo : Nat) : Nat → (Nat → α) → Nat → α
  | 0, a => a
  | count + 1, a => shiftDown (lo + 1) count (Function.update a lo (a (lo + 1)))

/-- `for (size_t i = 0; i < count; ++i) dst[dstAt + i] = src[srcAt + i];` -/
def copyRange (src : Nat → α) (srcAt dstAt : Nat) : Nat → (Nat → α) → Nat → α
  | 0, dst => dst
  | count + 1, dst =>
    Function.update (copyRange src srcAt dstAt count dst) (dstAt + count) (src (srcAt + count))

theorem copyRange_apply (src : Nat → α) (srcAt dstAt count : Nat) (dst : Nat → α) (j : Nat) :
    copyRange src srcAt dstAt count dst j =
      if dstAt ≤ j ∧ j < dstAt + count then src (srcAt + (j - dstAt)) else dst j := by
  induction count with
  | zero => rw [copyRange, if_neg (by omega)]
  | succ k ih =>
    rw [copyRange, Function.update_apply, ih]
    by_cases hj : j = dstAt + k
    · simp [hj]
    · have : (dstAt ≤ j ∧ j < dstAt + (k + 1)) ↔ (dstAt ≤ j ∧ j < dstAt + k) := by omega
      simp only [hj, if_false, this]

end Loops

/-- A `LeafNode`: `size`, the `keys` and `values` arrays and `next_leaf`. -/
structure LeafNode (K V : Type) where
  size : Nat
  keys : Nat → K
  values : Nat → V
  nextLeaf : Option Nat

/-- An `InternalNode`: `size`, the `keys` and the `children`. -/
structure InternalNode (K : Type) where
  size : Nat
  keys : Nat → K
  children : Nat → Option NodeRef

section Nodes

variable {K V : Type} [LinearOrder K]

namespace LeafNode

/-- `LeafNode()`: empty, with value-initialised arrays. -/
def init [Inhabited K] [Inhabited V] : LeafNode K V :=
  ⟨0, fun _ => default, fun _ => default, none⟩

/-- `find_position`: the first slot whose key is not below `key`. -/
def findPosition (n : LeafNode K V) (key : K) : Nat :=
  scan (fun pos => decide (n.keys pos < key)) n.size

/-- `LeafNode::insert`: overwrite an equal key, refuse when full, else shift and
store. -/
def insert (order : Nat) (key : K) (value : V) (n : LeafNode K V) : Bool × LeafNode K V :=
  let pos := n.findPosition key
  if pos < n.size ∧ n.keys pos = key then
    (true, { n with values := Function.update n.values pos value })
  else if order ≤ n.size then (false, n)
  else
    (true, { n with
      keys := Function.update (shiftUp pos n.size n.keys) pos key
      values := Function.update (shiftUp pos n.size n.values) pos value
      size := n.size + 1 })

/-- `LeafNode::find`. -/
def find (key : K) (n : LeafNode K V) : Option V :=
  let pos := n.findPosition key
  if pos < n.size ∧ n.keys pos = key then some (n.values pos) else none

/-- `LeafNode::remove`: shift the entries after `key` down one. -/
def remove (key : K) (n : LeafNode K V) : Bool × LeafNode K V :=
  let pos := n.findPosition key
  if n.size ≤ pos ∨ n.keys pos ≠ key then (false, n)
  else
    (true, { n with
      keys := shiftDown pos (n.size - 1 - pos) n.keys
      values := shiftDown pos (n.size - 1 - pos) n.values
      size := n.size - 1 })

/-- The inner loop of `range_query` over one leaf: `true` once a key passes
`end`; the pairs in `[start, end]` are appended to `out`. -/
def collect (start stop : K) (n : LeafNode K V) (out : List (K × V)) : Bool × List (K × V) :=
  (List.range n.size).foldl
    (fun acc i =>
      if acc.1 then acc
      else if stop < n.keys i then (true, acc.2)
      else if start ≤ n.keys i then (false, acc.2 ++ [(n.keys i, n.values i)])
      else acc)
    (false, out)

/-- The copy loop of `split_leaf_node`: `n` receives the entries of `src` from
`mid = src->size / 2` on. -/
def receiveUpperHalf (src n : LeafNode K V) : LeafNode K V :=
  let mid := src.size / 2
  { n with
    keys := copyRange src.keys mid 0 (src.size - mid) n.keys
    values := copyRange src.values mid 0 (src.size - mid) n.values
    size := n.size + (src.size - mid) }

/-- `node->size = mid` at the end of `split_leaf_node`. -/
def keepLowerHalf (n : LeafNode K V) : LeafNode K V :=
  { n with size := n.size / 2 }

/-- `next_leaf.store(p)`. -/
def setNextLeaf (p : Option Nat) (n : LeafNode K V) : LeafNode K V :=
  { n with nextLeaf := p }

/-- Borrowing from the left sibling in `merge_nodes`: `n` moves up one place and
takes the last entry of `left` in front. -/
def prependLastOf (left n : LeafNode K V) : LeafNode K V :=
  { n with
    keys := Function.update (shiftUp 0 n.size n.keys) 0 (left.keys (left.size - 1))
    values := Function.update (shiftUp 0 n.size n.values) 0 (left.values (left.size - 1))
    size := n.size + 1 }

/-- Borrowing from the right sibling in `merge_nodes`: `n` takes the first entry
of `right` at its end. -/
def appendFirstOf (right n : LeafNode K V) : LeafNode K V :=
  { n with
    keys := Function.update n.keys n.size (right.keys 0)
    values := Function.update n.values n.size (right.values 0)
    size := n.size + 1 }

/-- `size--` of the sibling that lent its last entry. -/
def dropLast (n : LeafNode K V) : LeafNode K V :=
  { n with size := n.size - 1 }

/-- The sibling that lent its first entry: the rest moves down one, `size--`. -/
def dropFirst (n : LeafNode K V) : LeafNode K V :=
  { n with
    keys := shiftDown 0 (n.size - 1) n.keys
    values := shiftDown 0 (n.size - 1) n.values
    size := n.size - 1 }

/-- Merging in `merge_nodes`: `n` receives all entries of `src` after its own
and takes over its `next_leaf`. -/
def absorb (src n : LeafNode K V) : LeafNode K V :=
  { n with
    keys := copyRange src.keys 0 n.size src.size n.keys
    values := copyRange src.values 0 n.size src.size n.values
    size := n.size + src.size
    nextLeaf := src.nextLeaf }

end LeafNode

namespace InternalNode

/-- `InternalNode()`: no keys, every child `nullptr`. -/
def init [Inhabited K] : InternalNode K := ⟨0, fun _ => default, fun _ => none⟩

/-- `find_child`: the child after the last separator not above `key`. -/
def findChild (key : K) (n : InternalNode K) : Option NodeRef :=
  n.children (scan (fun pos => decide (n.keys pos ≤ key)) n.size)

/-- `insert_child`: refuse when full, else shift and store `key` and `child`
right of it.  (`child->parent` is written and never read.) -/
def insertChild (order : Nat) (key : K) (child : NodeRef) (n : InternalNode K) :
    Bool × InternalNode K :=
  if order ≤ n.size then (false, n)
  else
    let pos := scan (fun pos => decide (n.keys pos < key)) n.size
    (true, { n with
      keys := Function.update (shiftUp pos n.size n.keys) pos key
      children := Function.update (shiftUp (pos + 1) (n.size + 1) n.children) (pos + 1) (some child)
      size := n.size + 1 })

/-- `children[i].store(child)`. -/
def setChild (i : Nat) (child : Option NodeRef) (n : InternalNode K) : InternalNode K :=
  { n with children := Function.update n.children i child }

/-- `keys[i].store(key)`. -/
def setKey (i : Nat) (key : K) (n : InternalNode K) : InternalNode K :=
  { n with keys := Function.update n.keys i key }

/-- The search for `node` among the children:
`while (node_pos <= parent->size && parent->children[node_pos] != node) node_pos++;` -/
def position (r : NodeRef) (n : InternalNode K) : Nat :=
  scan (fun i => n.children i != some r) (n.size + 1)

/-- "Remove ... from parent": keys from `i` and children from `i + 1` move down
one place (`for (j = i; j < size - 1; ++j)`), and `size--`. -/
def removeAt (i : Nat) (n : InternalNode K) : InternalNode K :=
  { n with
    keys := shiftDown i (n.size - 1 - i) n.keys
    children := shiftDown (i + 1) (n.size - 1 - i) n.children
    size := n.size - 1 }

/-- The copy loop of `insert_in_parent`'s split and the store after it:
`new_parent->keys[i-mid-1] = parent->keys[i]`,
`new_parent->children[i-mid-1] = parent->children[i]` for `mid < i < size`, then
`new_parent->children[parent->size-mid] = parent->children[parent->size]`. -/
def receiveUpperHalf (src n : InternalNode K) : InternalNode K :=
  let mid := src.size / 2
  let moved := src.size - (mid + 1)
  { n with
    keys := copyRange src.keys (mid + 1) 0 moved n.keys
    children := Function.update (copyRange src.children (mid + 1) 0 moved n.children)
      (src.size - mid) (src.children src.size)
    size := n.size + moved }

/-- `parent->size = mid` of the split. -/
def keepLowerHalf (n : InternalNode K) : InternalNode K :=
  { n with size := n.size / 2 }

/-- Borrowing from the left sibling in `merge_internal_node`: `n` moves up one
place, takes the separator `sep` as its first key and the last child of `left`
as its first child. -/
def prependLastOf (sep : K) (left n : InternalNode K) : InternalNode K :=
  { n with
    keys := Function.update (shiftUp 0 n.size n.keys) 0 sep
    children := Function.update
      (Function.update (shiftUp 1 (n.size + 1) n.children) 1 (n.children 0))
      0 (left.children left.size)
    size := n.size + 1 }

/-- Borrowing from the right sibling: `n` takes the separator `sep` as its last
key and the first child of `right` after it. -/
def appendFirstOf (sep : K) (right n : InternalNode K) : InternalNode K :=
  { n with
    keys := Function.update n.keys n.size sep
    children := Function.update n.children (n.size + 1) (right.children 0)
    size := n.size + 1 }

/-- `size--` of the sibling that lent its last child. -/
def dropLast (n : InternalNode K) : InternalNode K :=
  { n with size := n.size - 1 }

/-- The sibling that lent its first child: keys and children move down one,
`children[size-1] = children[size]`, `size--`. -/
def dropFirst (n : InternalNode K) : InternalNode K :=
  { n with
    keys := shiftDown 0 (n.size - 1) n.keys
    children := Function.update (shiftDown 0 (n.size - 1) n.children) (n.size - 1)
      (n.children n.size)
    size := n.size - 1 }

/-- Merging in `merge_internal_node`: `n` takes the separator `sep`, then the
keys and children of `src`. -/
def absorb (sep : K) (src n : InternalNode K) : InternalNode K :=
  let base := n.size + 1
  { n with
    keys := copyRange src.keys 0 base src.size (Function.update n.keys n.size sep)
    children := Function.update (copyRange src.children 0 base src.size n.children)
      (base + src.size) (src.children src.size)
    size := base + src.size }

end InternalNode

end Nodes

/-- The members of `BPlusTree`: `root_`, the node contents of every block, and
the two pools. -/
structure Tree (K V : Type) where
  root : Option NodeRef
  leaves : Nat → LeafNode K V
  internals : Nat → InternalNode K
  leafPool : MemoryPool
  internalPool : MemoryPool

/-- A member function: it faults or returns with the tree updated. -/
abbrev TreeM (K V : Type) := StateT (Tree K V) (Except Fault)

section Tree

variable {K V : Type} [LinearOrder K] [Inhabited K] [Inhabited V]

namespace Tree

/-- Rewrite the leaf in block `a` by `f`. -/
def mapLeaf (a : Nat) (f : LeafNode K V → LeafNode K V) (t : Tree K V) : Tree K V :=
  { t with leaves := Function.update t.leaves a (f (t.leaves a)) }

/-- Rewrite the internal node in block `a` by `f`. -/
def mapInternal (a : Nat) (f : InternalNode K → InternalNode K) (t : Tree K V) : Tree K V :=
  { t with internals := Function.update t.internals a (f (t.internals a)) }

/-- `root_.store(r)`. -/
def setRoot (r : Option NodeRef) (t : Tree K V) : Tree K V :=
  { t with root := r }

/-- `create_leaf_node`: `leaf_pool_.allocate()` constructs a `LeafNode`. -/
def createLeafNode (t : Tree K V) : Nat × Tree K V :=
  let (a, pool) := t.leafPool.allocateBlock poolBlocks
  (a, { t with leafPool := pool, leaves := Function.update t.leaves a LeafNode.init })

omit [LinearOrder K] [Inhabited K] [Inhabited V] in
@[simp] theorem mapLeaf_leaves (a : Nat) (f : LeafNode K V → LeafNode K V) (t : Tree K V) :
    (t.mapLeaf a f).leaves = Function.update t.leaves a (f (t.leaves a)) := rfl

omit [LinearOrder K] in
@[simp] theorem createLeafNode_fst (t : Tree K V) :
    t.createLeafNode.1 = (t.leafPool.allocateBlock poolBlocks).1 := rfl

omit [LinearOrder K] in
@[simp] theorem createLeafNode_leaves (t : Tree K V) :
    t.createLeafNode.2.leaves =
      Function.update t.leaves (t.leafPool.allocateBlock poolBlocks).1 LeafNode.init := rfl

/-- `create_internal_node`. -/
def createInternalNode (t : Tree K V) : Nat × Tree K V :=
  let (a, pool) := t.internalPool.allocateBlock poolBlocks
  (a, { t with internalPool := pool, internals := Function.update t.internals a InternalNode.init })

/-- `leaf_pool_.deallocate`. -/
def freeLeaf (a : Nat) (t : Tree K V) : Tree K V :=
  { t with leafPool := t.leafPool.deallocate (some a) }

/-- `internal_pool_.deallocate`. -/
def freeInternal (a : Nat) (t : Tree K V) : Tree K V :=
  { t with internalPool := t.internalPool.deallocate (some a) }

/-- `BPlusTree()`: the root is a fresh leaf. -/
def empty : Tree K V :=
  let t : Tree K V := ⟨none, fun _ => LeafNode.init, fun _ => InternalNode.init, .empty, .empty⟩
  let (a, t) := t.createLeafNode
  t.setRoot (some (.leaf a))

end Tree

/-- The leaf in block `a`. -/
def leaf (a : Nat) : TreeM K V (LeafNode K V) := do return (← get).leaves a

/-- The internal node in block `a`. -/
def internal (a : Nat) : TreeM K V (InternalNode K) := do return (← get).internals a

/-- A member call on the leaf in block `a`: its result, and the leaf rewritten. -/
def onLeaf {β : Type} (a : Nat) (f : LeafNode K V → β × LeafNode K V) : TreeM K V β :=
  modifyGet fun t => ((f (t.leaves a)).1, t.mapLeaf a fun n => (f n).2)

/-- A member call on the internal node in block `a`. -/
def onInternal {β : Type} (a : Nat) (f : InternalNode K → β × InternalNode K) :
    TreeM K V β :=
  modifyGet fun t => ((f (t.internals a)).1, t.mapInternal a fun n => (f n).2)

/-- Rewrite the leaf in block `a` by `f` applied to the leaf in block `src`. -/
def leafFrom (a src : Nat) (f : LeafNode K V → LeafNode K V → LeafNode K V) :
    TreeM K V Unit :=
  modify fun t => t.mapLeaf a (f (t.leaves src))

/-- Rewrite the internal node in block `a` by `f` applied to the one in `src`. -/
def internalFrom (a src : Nat) (f : InternalNode K → InternalNode K → InternalNode K) :
    TreeM K V Unit :=
  modify fun t => t.mapInternal a (f (t.internals src))

/-- `static_cast<LeafNode*>(p)` of a pointer that is then dereferenced. -/
def asLeaf : Option NodeRef → TreeM K V Nat
  | some (.leaf a) => pure a
  | some (.internal _) => throw .badCast
  | none => throw .nullDeref

/-- `static_cast<InternalNode*>(p)` of a pointer that is then dereferenced. -/
def asInternal : Option NodeRef → TreeM K V Nat
  | some (.internal a) => pure a
  | some (.leaf _) => throw .badCast
  | none => throw .nullDeref

/-- `p->parent.store(...)`: of the write only the dereference is observable. -/
def touch : Option NodeRef → TreeM K V Unit
  | some _ => pure ()
  | none => throw .nullDeref

/-- `touch` of the children `0, …, count - 1`. -/
def touchAll (c : Nat → Option NodeRef) (count : Nat) : TreeM K V Unit :=
  if (List.range count).all fun i => (c i).isSome then pure () else throw .nullDeref

/-- The `while (!current->is_leaf)` loop of `find_leaf_node`, from `current`,
pushing each internal node it passes onto `path`. -/
def descend (key : K) : Nat → Option NodeRef → List Nat → TreeM K V (Nat × List Nat)
  | _, none, _ => throw .nullDeref
  | _, some (.leaf a), path => pure (a, path)
  | 0, some (.internal _), _ => throw .outOfFuel
  | fuel + 1, some (.internal a), path => do
    descend key fuel ((← internal a).findChild key) (a :: path)

/-- `find_leaf_node`: the leaf for `key` and the internal nodes above it. -/
def findLeafNode (key : K) : TreeM K V (Nat × List Nat) := do
  let t ← get
  descend key (t.internalPool.chunks * poolBlocks) t.root []

/-- `split_leaf_node`: the upper half of the leaf `a` moves to a new leaf. -/
def splitLeafNode (a : Nat) : TreeM K V Nat := do
  let b ← modifyGet Tree.createLeafNode
  leafFrom b a LeafNode.receiveUpperHalf
  modify (Tree.mapLeaf a LeafNode.keepLowerHalf)
  return b

/-- `insert_in_parent`: add the separator `key` and the node `right` beside
`left`; a full parent is split and the split goes one level up. -/
def insertInParent (order : Nat) (left : NodeRef) (key : K) (right : NodeRef) :
    List Nat → TreeM K V Bool
  | [] => do
    let r ← modifyGet Tree.createInternalNode
    modify (Tree.mapInternal r fun n => ((n.setChild 0 (some left)).insertChild order key right).2)
    modify (Tree.setRoot (some (.internal r)))
    return true
  | p :: upper => do
    if ← onInternal p (InternalNode.insertChild order key right) then
      return true
    else
      let np ← modifyGet Tree.createInternalNode
      internalFrom np p InternalNode.receiveUpperHalf
      let parent ← internal p
      let middleKey := parent.keys (parent.size / 2)
      modify (Tree.mapInternal p InternalNode.keepLowerHalf)
      insertInParent order (.internal p) middleKey (.internal np) upper

/-- The `while (true)` loop of `insert`, with `fuel` rounds. -/
def insertLoop (order : Nat) (key : K) (value : V) : Nat → TreeM K V Bool
  | 0 => throw .outOfFuel
  | fuel + 1 => do
    let (a, path) ← findLeafNode key
    if ← onLeaf a (LeafNode.insert order key value) then
      return true
    else
      let b ← splitLeafNode a
      leafFrom b a fun l => LeafNode.setNextLeaf l.nextLeaf
      modify (Tree.mapLeaf a (LeafNode.setNextLeaf (some b)))
      if ← insertInParent order (.leaf a) ((← leaf b).keys 0) (.leaf b) path then
        return true
      else
        insertLoop order key value fuel

/-- `insert`: one round of the loop (`insertInParent_returns_true`). -/
def insert (order : Nat) (key : K) (value : V) : TreeM K V Bool :=
  insertLoop order key value 1

/-- `find`. -/
def find (key : K) : TreeM K V (Option V) := do
  let (a, _) ← findLeafNode key
  return (← leaf a).find key

/-- The `while (leaf)` loop of `range_query` along `next_leaf`. -/
def rangeFrom (start stop : K) : Nat → Option Nat → List (K × V) → TreeM K V (List (K × V))
  | _, none, out => pure out
  | 0, some _, _ => throw .outOfFuel
  | fuel + 1, some a, out => do
    let n ← leaf a
    let (done, out) := n.collect start stop out
    if done then return out
    rangeFrom start stop fuel n.nextLeaf out

/-- `range_query(start, end, out)`: the pairs written to `out`. -/
def rangeQuery (start stop : K) : TreeM K V (List (K × V)) := do
  let (a, _) ← findLeafNode start
  rangeFrom start stop ((← get).leafPool.chunks * poolBlocks) (some a) []

/-- `merge_internal_node`: refill the underfull internal node `node` from a
sibling, or merge it with one; at the top, collapse an empty root. -/
def mergeInternalNode (order : Nat) (node : Nat) : List Nat → TreeM K V Unit
  | [] => do
    let t ← get
    let n ← internal node
    if t.root = some (.internal node) ∧ n.size = 0 then
      modify (Tree.setRoot (n.children 0))
      modify (Tree.freeInternal node)
  | p :: upper => do
    let parent ← internal p
    let pos := parent.position (.internal node)
    -- borrow from the left sibling
    if 0 < pos then
      let ls ← asInternal (parent.children (pos - 1))
      let left ← internal ls
      if order / 2 < left.size then
        internalFrom node ls (InternalNode.prependLastOf (parent.keys (pos - 1)))
        modify (Tree.mapInternal p (InternalNode.setKey (pos - 1) (left.keys (left.size - 1))))
        touch (left.children left.size)
        modify (Tree.mapInternal ls InternalNode.dropLast)
        return
    -- borrow from the right sibling
    if pos < parent.size then
      let rs ← asInternal (parent.children (pos + 1))
      let right ← internal rs
      if order / 2 < right.size then
        internalFrom node rs (InternalNode.appendFirstOf (parent.keys pos))
        modify (Tree.mapInternal p (InternalNode.setKey pos (right.keys 0)))
        touch (right.children 0)
        modify (Tree.mapInternal rs InternalNode.dropFirst)
        return
    if 0 < pos then
      -- merge into the left sibling
      let ls ← asInternal (parent.children (pos - 1))
      touchAll (← internal node).children ((← internal node).size + 1)
      internalFrom ls node (InternalNode.absorb (parent.keys (pos - 1)))
      modify (Tree.mapInternal p (InternalNode.removeAt (pos - 1)))
      if (← internal p).size < order / 2 then mergeInternalNode order p upper
      modify (Tree.freeInternal node)
    else
      -- merge the right sibling into this node
      let rs ← asInternal (parent.children (pos + 1))
      touchAll (← internal rs).children ((← internal rs).size + 1)
      internalFrom node rs (InternalNode.absorb (parent.keys pos))
      modify (Tree.mapInternal p (InternalNode.removeAt pos))
      if (← internal p).size < order / 2 then mergeInternalNode order p upper
      modify (Tree.freeInternal rs)

/-- `merge_nodes`: refill the underfull leaf `node` from a sibling, or merge it
with one and remove the emptied child from the parent. -/
def mergeNodes (order : Nat) (node : Nat) : List Nat → TreeM K V Unit
  | [] => pure ()
  | p :: upper => do
    let parent ← internal p
    let pos := parent.position (.leaf node)
    -- borrow from the left sibling
    if 0 < pos then
      let ls ← asLeaf (parent.children (pos - 1))
      if order / 2 < (← leaf ls).size then
        leafFrom node ls LeafNode.prependLastOf
        modify (Tree.mapLeaf ls LeafNode.dropLast)
        modify (Tree.mapInternal p (InternalNode.setKey (pos - 1) ((← leaf node).keys 0)))
        return
    -- borrow from the right sibling
    if pos < parent.size then
      let rs ← asLeaf (parent.children (pos + 1))
      if order / 2 < (← leaf rs).size then
        leafFrom node rs LeafNode.appendFirstOf
        modify (Tree.mapLeaf rs LeafNode.dropFirst)
        modify (Tree.mapInternal p (InternalNode.setKey pos ((← leaf rs).keys 0)))
        return
    if 0 < pos then
      -- merge into the left sibling
      let ls ← asLeaf (parent.children (pos - 1))
      leafFrom ls node LeafNode.absorb
      modify (Tree.mapInternal p (InternalNode.removeAt (pos - 1)))
      if (← internal p).size < order / 2 then mergeInternalNode order p upper
      modify (Tree.freeLeaf node)
    else
      -- merge the right sibling into this leaf
      let rs ← asLeaf (parent.children (pos + 1))
      leafFrom node rs LeafNode.absorb
      modify (Tree.mapInternal p (InternalNode.removeAt pos))
      if (← internal p).size < order / 2 then mergeInternalNode order p upper
      modify (Tree.freeLeaf rs)

/-- `remove`: the loop body returns in its first round. -/
def remove (order : Nat) (key : K) : TreeM K V Bool := do
  let (a, path) ← findLeafNode key
  if ← onLeaf a (LeafNode.remove key) then
    if (← leaf a).size < order / 2 then mergeNodes order a path
    return true
  else
    return false

end Tree

/-- A public call on the tree. -/
inductive Call (K V : Type)
  | insert (key : K) (value : V)
  | remove (key : K)
  | find (key : K)
  | rangeQuery (start stop : K)

/-- What a public call returns (`range_query`: what it writes to `out`). -/
inductive Reply (K V : Type)
  | inserted (ok : Bool)
  | removed (ok : Bool)
  | found (value : Option V)
  | range (out : List (K × V))
  deriving DecidableEq, Repr

section Calls

variable {K V : Type} [LinearOrder K] [Inhabited K] [Inhabited V]

/-- One public call. -/
def call (order : Nat) : Call K V → TreeM K V (Reply K V)
  | .insert key value => .inserted <$> insert order key value
  | .remove key => .removed <$> remove order key
  | .find key => .found <$> find key
  | .rangeQuery start stop => .range <$> rangeQuery start stop

/-- The tree after `calls` (latest first) made one after another on a new tree.
A call that faults ends the program; here it leaves the tree as it was. -/
def treeAfter (order : Nat) : List (Call K V) → Tree K V
  | [] => Tree.empty
  | c :: cs =>
    match (call order c).run (treeAfter order cs) with
    | .ok (_, t) => t
    | .error _ => treeAfter order cs

/-- What each of `calls` (latest first) returned, or the fault that stopped it. -/
def replies (order : Nat) : List (Call K V) → List (Except Fault (Reply K V))
  | [] => []
  | c :: cs => (call order c).run' (treeAfter order cs) :: replies order cs

end Calls

end BPlusTree
end Lockfree
end AsyncToolkit
