import AsyncToolkit.Memory.MemoryPool

/-!
# async_toolkit: the skip list

This module models `lockfree::SkipList<Key, Value, MaxLevel>` of
`include/async_toolkit/lockfree/skiplist.hpp` as the code runs in one thread.

**State.**  A `Node*` is `Ptr`: `head_`, which the constructor allocates with `new`, or a
block of `pool_` (`memory::MemoryPool<Node>` with the default `BlockSize` 4096, so 15
blocks a chunk); `nullptr` is `none`.  `next` is a function of the level: the entries
the constructor does not store are value-initialised, so every `next[i]` of a new node is
`nullptr`.  In one thread a `compare_exchange` on `current_level_` or on a `next` pointer
succeeds exactly when it finds the expected value.

**Operations.**  The searches only read the list, so they are functions of the state;
`insert` and `remove` are computations in `SkipM` and `find` is a function.
`random_level()` is computed from the outcomes of its draws `dis(gen) < 0.5`, an argument
of `insert`.  The local array `update` is a function from levels to `Option Ptr`, `none`
where the search did not write it: reading such an entry is the fault `uninitRead`, as
dereferencing `nullptr` is `nullDeref`.  The `while (true)` loops take as fuel one more
than the blocks `pool_` has handed out, the number of nodes an acyclic walk can visit.

**The CAS of `insert`.**  Lines 84-85 pass `new_node->next[i].load()`, a prvalue, as the
`expected` argument of `compare_exchange_strong`, a `Node*&`: the body of `insert` is
ill-formed, and a program that calls it does not compile.  `link` reads the call as it
compiles once `expected` is bound to a local `Node*` that holds the value loaded; the
results on `insert` are about that program.

**Results.**  `insertSearch_above`: the search of `insert` writes `update[i]` only for
`i < current_level_`.  `link_of_unfilled`: the linking loop stops at the first entry it
reads that was not written.  So an `insert` whose level exceeds `current_level_` and that
does not find its key reads an unfilled entry (`insert_above_level`), and the first such
insert into a new list does.  On a list whose level 1 is empty, `remove` of a node of
level 1 dereferences `nullptr` in its retry loop.
-/

namespace AsyncToolkit
namespace Lockfree

open Memory

/-- A non-null `Node*`: `head_`, or a block of `pool_`. -/
inductive SkipList.Ptr
  | head
  | block (a : Nat)
  deriving DecidableEq, Repr

/-- Where a call stops short of returning: a read of an entry of `update` that the search
did not write, a `nullptr` dereferenced, or a loop past its fuel. -/
inductive SkipList.Fault
  | uninitRead
  | nullDeref
  | outOfFuel
  deriving DecidableEq, Repr

/-- A `Node`: its key and value, `next[i]` for every level `i`, and the mark of a node
logically deleted. -/
structure SkipList.Node (K V : Type) where
  key : K
  value : V
  next : Nat → Option SkipList.Ptr
  marked : Bool

/-- A `SkipList<Key, Value, MaxLevel>`: the nodes, `current_level_` and `pool_`. -/
structure SkipList (K V : Type) where
  maxLevel : Nat
  nodes : SkipList.Ptr → SkipList.Node K V
  currentLevel : Nat
  pool : MemoryPool

namespace SkipList

variable {K V : Type}

/-- `Node(k, v, lvl)`: not marked, every `next[i]` `nullptr`. -/
def Node.init (k : K) (v : V) : Node K V := ⟨k, v, fun _ => none, false⟩

/-- Blocks a chunk of `MemoryPool<Node, 4096>` holds: `65536 / sizeof(Block)`. -/
def poolBlocks : Nat := 15

/-- `SkipList()`: `head_` is `Node(Key(), Value(), MaxLevel)` and `current_level_` is 1.
A block the pool has not handed out is never read. -/
def empty [Inhabited K] [Inhabited V] (maxLevel : Nat) : SkipList K V :=
  ⟨maxLevel, fun _ => Node.init default default, 1, MemoryPool.empty⟩

/-- Fuel of the walks: the nodes there are, `head_` and the blocks handed out. -/
def walkFuel (s : SkipList K V) : Nat := s.pool.chunks * poolBlocks + 1

/-- `random_level()`, from `level`, given the outcomes of the draws `dis(gen) < 0.5`;
draws past the list are `false`. -/
def randomLevel.go (maxLevel : Nat) (level : Nat) : List Bool → Nat
  | true :: draws => if level < maxLevel then go maxLevel (level + 1) draws else level
  | _ => level

/-- `random_level()`. -/
def randomLevel (maxLevel : Nat) (draws : List Bool) : Nat := randomLevel.go maxLevel 1 draws

/-! ## Writes to the list -/

/-- `p->next[i].store(q)`. -/
def setNext (s : SkipList K V) (p : Ptr) (i : Nat) (q : Option Ptr) : SkipList K V :=
  { s with
    nodes := Function.update s.nodes p
      { (s.nodes p) with next := Function.update (s.nodes p).next i q } }

/-- `p->value.store(v)`. -/
def setValue (s : SkipList K V) (p : Ptr) (v : V) : SkipList K V :=
  { s with nodes := Function.update s.nodes p { (s.nodes p) with value := v } }

/-- `p->marked.exchange(true)`, the store. -/
def mark (s : SkipList K V) (p : Ptr) : SkipList K V :=
  { s with nodes := Function.update s.nodes p { (s.nodes p) with marked := true } }

@[simp] theorem setNext_currentLevel (s : SkipList K V) (p i q) :
    (s.setNext p i q).currentLevel = s.currentLevel := rfl

@[simp] theorem setNext_next (s : SkipList K V) (p : Ptr) (i : Nat) (q : Option Ptr) (r : Ptr)
    (j : Nat) :
    ((s.setNext p i q).nodes r).next j = if r = p ∧ j = i then q else (s.nodes r).next j := by
  by_cases h : r = p
  · subst h; by_cases hj : j = i <;> simp [setNext, hj]
  · simp [setNext, h]

/-- A member function running on the list, stopping at a `Fault`. -/
abbrev SkipM (K V : Type) := StateT (SkipList K V) (Except Fault)

/-- `p->next[i].store(q)` as a step. -/
def storeNext (p : Ptr) (i : Nat) (q : Option Ptr) : SkipM K V Unit :=
  modify (·.setNext p i q)

/-- `p->next[i].compare_exchange_strong(expected, desired)` in one thread: it stores
`desired` when `next[i]` is `expected`.  The result, and the value it read, which the
code's `expected` holds afterwards. -/
def casNext (p : Ptr) (i : Nat) (expected desired : Option Ptr) :
    SkipM K V (Bool × Option Ptr) := do
  let seen := ((← get).nodes p).next i
  if seen = expected then
    storeNext p i desired
    return (true, seen)
  else return (false, seen)

/-- `update[i]`, where an entry the search did not write is uninitialised. -/
def readUpdate (update : Nat → Option Ptr) (i : Nat) : Except Fault Ptr :=
  match update i with
  | some p => pure p
  | none => throw .uninitRead

/-- `p->next[i]` where `p` may be `nullptr`. -/
def derefNext (s : SkipList K V) (p : Option Ptr) (i : Nat) : Except Fault (Option Ptr) :=
  match p with
  | some p => pure ((s.nodes p).next i)
  | none => throw .nullDeref

/-! ## Searches -/

/-- How the inner loop of `insert`'s search at one level ends. -/
inductive InsertStop
  /-- `!next || next->key > key`: `update[i] = current`. -/
  | stop (current : Ptr)
  /-- `next->key == key` and `next` is marked: `break` without writing `update[i]`. -/
  | marked (current : Ptr)
  /-- `next->key == key` and `next` is not marked: `insert` stores its value there. -/
  | found (p : Ptr)

/-- What the search of `insert` found. -/
inductive InsertSearch
  /-- An unmarked node with the key. -/
  | found (p : Ptr)
  /-- No such node; the `update` array it left. -/
  | notFound (update : Nat → Option Ptr)

section Search

variable [LinearOrder K] (s : SkipList K V) (key : K)

/-- The `while (true)` loop of `insert`'s search at level `i`, from `current`. -/
def insertWalk (i : Nat) : Nat → Ptr → Except Fault InsertStop
  | 0, _ => throw .outOfFuel
  | fuel + 1, current =>
    match (s.nodes current).next i with
    | none => pure (.stop current)
    | some p =>
      if key < (s.nodes p).key then pure (.stop current)
      else if (s.nodes p).key = key then
        pure (if (s.nodes p).marked then .marked current else .found p)
      else insertWalk i fuel p

/-- The search of `insert` over the levels below `levels`, from the top, from `current`. -/
def insertSearch (fuel : Nat) :
    Nat → Ptr → (Nat → Option Ptr) → Except Fault InsertSearch
  | 0, _, update => pure (.notFound update)
  | i + 1, current, update => do
    match ← insertWalk s key i fuel current with
    | .stop c => insertSearch fuel i c (Function.update update i (some c))
    | .marked c => insertSearch fuel i c update
    | .found p => pure (.found p)

/-- The `while (true)` loop of the searches of `remove` and `find` at level `i`: the last
node whose successor is `nullptr` or has a key `≥ key`. -/
def seekWalk (i : Nat) : Nat → Ptr → Except Fault Ptr
  | 0, _ => throw .outOfFuel
  | fuel + 1, current =>
    match (s.nodes current).next i with
    | none => pure current
    | some p => if key ≤ (s.nodes p).key then pure current else seekWalk i fuel p

/-- The search of `remove` and `find` over the levels below `levels`: the final `current`
and the `update` array (`find` keeps no array). -/
def seek (fuel : Nat) :
    Nat → Ptr → (Nat → Option Ptr) → Except Fault (Ptr × (Nat → Option Ptr))
  | 0, current, update => pure (current, update)
  | i + 1, current, update => do
    let c ← seekWalk s key i fuel current
    seek fuel i c (Function.update update i (some c))

end Search

/-- `while (current && current->marked) current = current->next[i]`. -/
def skipMarked (s : SkipList K V) (i : Nat) : Nat → Option Ptr → Except Fault (Option Ptr)
  | 0, _ => throw .outOfFuel
  | _ + 1, none => pure none
  | fuel + 1, some p =>
    if (s.nodes p).marked then skipMarked s i fuel ((s.nodes p).next i) else pure (some p)

/-! ## Member functions -/

/-- `pool_.allocate(key, value, new_level)`. -/
def allocate (key : K) (value : V) : SkipM K V Nat := do
  let s ← get
  let (a, pool) := s.pool.allocateBlock poolBlocks
  set { s with pool := pool, nodes := Function.update s.nodes (.block a) (Node.init key value) }
  return a

/-- The loop of `current_level_.compare_exchange_weak`: raise `current_level_` to `l`. -/
def raiseLevel (l : Nat) (s : SkipList K V) : SkipList K V :=
  if s.currentLevel < l then { s with currentLevel := l } else s

/-- The `catch` block's loop: `update[i]->next[i].store(new_node->next[i])` for `i < n`. -/
def restore (update : Nat → Option Ptr) (newNode : Ptr) : Nat → SkipM K V Unit
  | 0 => pure ()
  | i + 1 => do
    restore update newNode i
    let u ← readUpdate update i
    storeNext u i (((← get).nodes newNode).next i)

/-- The `try` block of `insert` from level `i`, `n` levels to go: `false` when a CAS failed
and the `catch` block has restored the levels below `i`.  The source passes the prvalue
`new_node->next[i].load()` as `expected`, which does not compile; here `expected` is a
local that holds it. -/
def link (update : Nat → Option Ptr) (newNode : Ptr) : Nat → Nat → SkipM K V Bool
  | _, 0 => pure true
  | i, n + 1 => do
    let u ← readUpdate update i
    storeNext newNode i (((← get).nodes u).next i)
    let expected := ((← get).nodes newNode).next i
    if (← casNext u i expected (some newNode)).1 then link update newNode (i + 1) n
    else do
      restore update newNode i
      pure false

/-- `insert(key, value)`, where the draws of `random_level()` are `draws`. -/
def insert [LinearOrder K] (key : K) (value : V) (draws : List Bool) : SkipM K V Bool := do
  let s ← get
  match ← insertSearch s key (walkFuel s) s.currentLevel .head (fun _ => none) with
  | .found p =>
    set (s.setValue p value)
    pure true
  | .notFound update =>
    let newLevel := randomLevel s.maxLevel draws
    let a ← allocate key value
    modify (raiseLevel newLevel)
    if ← link update (.block a) 0 newLevel then pure true
    else do
      modify fun s => { s with pool := s.pool.deallocate (some (a : Nat)) }
      pure false

/-- The retry loop of `remove` at level `i`, from `current`: the `current` it leaves. -/
def unlinkLevel (update : Nat → Option Ptr) (i : Nat) : Nat → Option Ptr → SkipM K V (Option Ptr)
  | 0, _ => throw .outOfFuel
  | fuel + 1, current => do
    let next ← derefNext (← get) current i
    let u ← readUpdate update i
    let (ok, seen) ← casNext u i current next
    if ok then pure current
    else unlinkLevel update i fuel (← skipMarked (← get) i fuel seen)

/-- The loop of `remove` over the levels `i, …, i + n - 1`. -/
def unlinkLevels (update : Nat → Option Ptr) (fuel : Nat) :
    Nat → Nat → Option Ptr → SkipM K V Unit
  | _, 0, _ => pure ()
  | i, n + 1, current => do
    let c ← unlinkLevel update i fuel current
    unlinkLevels update fuel (i + 1) n c

/-- `remove(key)`. -/
def remove [LinearOrder K] (key : K) : SkipM K V Bool := do
  let s ← get
  let (current, update) ← seek s key (walkFuel s) s.currentLevel .head (fun _ => none)
  match (s.nodes current).next 0 with
  | none => pure false
  | some p =>
    if (s.nodes p).key ≠ key then pure false
    else if (s.nodes p).marked then pure false
    else do
      set (s.mark p)
      unlinkLevels update (walkFuel s) 0 s.currentLevel (some p)
      pure true

/-- `find(key)`. -/
def find [LinearOrder K] (s : SkipList K V) (key : K) : Except Fault (Option V) := do
  let (current, _) ← seek s key (walkFuel s) s.currentLevel .head (fun _ => none)
  pure <| match (s.nodes current).next 0 with
    | some p =>
      if (s.nodes p).key = key ∧ (s.nodes p).marked = false then some (s.nodes p).value else none
    | none => none

/-- The keys on level `i` from `p` on, following `next[i]`; `none` past `fuel` nodes. -/
def levelKeys (s : SkipList K V) (i : Nat) : Nat → Option Ptr → Option (List K)
  | 0, _ => none
  | _ + 1, none => some []
  | fuel + 1, some p => ((s.nodes p).key :: ·) <$> levelKeys s i fuel ((s.nodes p).next i)

/-- The level-`i` list. -/
def keysAt (s : SkipList K V) (i : Nat) : Option (List K) :=
  levelKeys s i (walkFuel s) ((s.nodes .head).next i)

/-! ## Runs -/

section Runs

@[simp] theorem ok_bind {α β : Type} (a : α) (f : α → Except Fault β) :
    (Except.ok a >>= f) = f a := rfl

@[simp] theorem error_bind {α β : Type} (e : Fault) (f : α → Except Fault β) :
    (Except.error e >>= f) = .error e := rfl

@[simp] theorem allocate_run (s : SkipList K V) (key : K) (value : V) :
    (allocate key value).run s = .ok ((s.pool.allocateBlock poolBlocks).1,
      { s with pool := (s.pool.allocateBlock poolBlocks).2
               nodes := Function.update s.nodes (.block (s.pool.allocateBlock poolBlocks).1)
                 (Node.init key value) }) := rfl

/-- `random_level()` returns a level in `[1, MaxLevel]` (1 when `MaxLevel` is 0). -/
theorem randomLevel.go_mem (maxLevel : Nat) :
    ∀ level draws, level ≤ go maxLevel level draws ∧ go maxLevel level draws ≤ max level maxLevel
  | level, true :: draws => by
    have ih := go_mem maxLevel (level + 1) draws
    by_cases h : level < maxLevel
    · simp only [go, if_pos h]; omega
    · simp only [go, if_neg h]; omega
  | level, false :: _ => by simp [go]
  | level, [] => by simp [go]

/-- Each level in `[1, MaxLevel]` is returned after as many successful draws. -/
theorem randomLevel.go_replicate {maxLevel : Nat} :
    ∀ k level, level ≤ maxLevel →
      go maxLevel level (List.replicate k true) = min (level + k) maxLevel
  | 0, level, h => by simp [go, h]
  | k + 1, level, h => by
    by_cases hl : level < maxLevel
    · simp only [List.replicate_succ, go, if_pos hl, go_replicate k (level + 1) hl]; omega
    · simp only [List.replicate_succ, go, if_neg hl]; omega

theorem randomLevel_mem (maxLevel : Nat) (draws : List Bool) :
    1 ≤ randomLevel maxLevel draws ∧ randomLevel maxLevel draws ≤ max 1 maxLevel :=
  randomLevel.go_mem maxLevel 1 draws

theorem randomLevel_replicate {maxLevel l : Nat} (h1 : 1 ≤ l) (h2 : l ≤ maxLevel) :
    randomLevel maxLevel (List.replicate (l - 1) true) = l := by
  rw [randomLevel, randomLevel.go_replicate _ _ (by omega)]
  omega

/-- A first successful draw gives a level of at least 2 when `MaxLevel` is. -/
theorem two_le_randomLevel (m : Nat) (draws : List Bool) :
    2 ≤ randomLevel (m + 2) (true :: draws) := by
  simp only [randomLevel, randomLevel.go, if_pos (by omega : 1 < m + 2)]
  exact (randomLevel.go_mem _ _ _).1

/-- Once `update[i]` holds a node, the `i`-th iteration of the linking loop stores its
successor into `new_node` and links `new_node` behind it: the CAS finds what was just read. -/
theorem link_succ_of_some {update : Nat → Option Ptr} {p u : Ptr} {i : Nat} (h : update i = some u)
    (n : Nat) (st : SkipList K V) :
    (link update p i (n + 1)).run st =
      (link update p (i + 1) n).run ((st.setNext p i ((st.nodes u).next i)).setNext u i (some p)) := by
  simp [link, readUpdate, h, casNext, storeNext]

/-- The linking loop reaches every level below `new_level`, so it reads an unwritten
entry of `update` if there is one. -/
theorem link_of_unfilled {update : Nat → Option Ptr} {p : Ptr} {j n i : Nat} (hj : update j = none)
    (h1 : i ≤ j) (h2 : j < i + n) (st : SkipList K V) :
    (link update p i n).run st = .error .uninitRead := by
  induction n generalizing i st with
  | zero => omega
  | succ n ih =>
    cases hi : update i with
    | none => simp only [link, readUpdate, hi]; rfl
    | some u =>
      have hne : i ≠ j := by rintro rfl; rw [hj] at hi; cases hi
      rw [link_succ_of_some hi]
      exact ih (by omega) (by omega) _

variable [LinearOrder K] (s : SkipList K V) (key : K)

/-- The search of `insert` writes `update[i]` only for the levels `i` it walks, those
below `current_level_`. -/
theorem insertSearch_above {fuel : Nat} :
    ∀ {levels : Nat} {current : Ptr} {update u : Nat → Option Ptr},
      insertSearch s key fuel levels current update = .ok (.notFound u) →
        ∀ j, levels ≤ j → u j = update j
  | 0, _, _, _, h, _, _ => by cases h; rfl
  | i + 1, current, update, u, h, j, hj => by
    simp only [insertSearch] at h
    cases hw : insertWalk s key i fuel current with
    | error e => rw [hw] at h; cases h
    | ok r =>
      rw [hw, ok_bind] at h
      cases r with
      | stop c => rw [insertSearch_above h j (by omega), Function.update_noteq (by omega)]
      | marked c => exact insertSearch_above h j (by omega)
      | found p => cases h

/-- An `insert` whose level exceeds `current_level_` and that does not find its key reads
`update[current_level_]`, which its search did not write. -/
theorem insert_above_level (value : V) (draws : List Bool) {u : Nat → Option Ptr}
    (hs : insertSearch s key (walkFuel s) s.currentLevel .head (fun _ => none) = .ok (.notFound u))
    (hl : s.currentLevel < randomLevel s.maxLevel draws) :
    (insert key value draws).run s = .error .uninitRead := by
  have hu : u s.currentLevel = none := insertSearch_above s key hs _ le_rfl
  simp only [SkipList.insert, StateT.run_bind]
  have hl' : s.currentLevel < 0 + randomLevel s.maxLevel draws := by omega
  simp [hs, link_of_unfilled hu (Nat.zero_le _) hl']

end Runs

/-- A list at `current_level_` 2 whose one node, key 5 with value 50, is on level 0 only:
`current_level_` never decreases, so a list is at level 2 with level 1 empty once the
nodes of level 2 it had are removed. -/
def oneKeyTwoLevels : SkipList Nat Nat :=
  { maxLevel := 32, currentLevel := 2, pool := (MemoryPool.empty.allocateBlock poolBlocks).2
    nodes := fun
      | .head => { Node.init 0 0 with next := fun i => if i = 0 then some (.block 0) else none }
      | .block _ => Node.init 5 50 }

/-- For every `MaxLevel ≥ 2`, every key type, key and value: the first insert into a new
list whose first draw succeeds reads an unwritten entry of `update`.  And on a list with
level 0 holding 5 and level 1 empty, `remove(5)` unlinks it from level 0, fails its CAS on
level 1, and dereferences the `nullptr` it read there. -/
theorem insert_reads_unfilled_update [Inhabited K] [Inhabited V] [LinearOrder K] (m : Nat)
    (key : K) (value : V) (draws : List Bool) :
    (insert key value (true :: draws)).run (empty (m + 2) : SkipList K V) = .error .uninitRead ∧
      oneKeyTwoLevels.keysAt 0 = some [5] ∧ oneKeyTwoLevels.keysAt 1 = some [] ∧
      oneKeyTwoLevels.find 5 = .ok (some 50) ∧
      (remove 5).run oneKeyTwoLevels = .error .nullDeref :=
  ⟨insert_above_level _ key value _ rfl (two_le_randomLevel m draws), rfl, rfl, rfl, rfl⟩

end SkipList

end Lockfree
end AsyncToolkit
