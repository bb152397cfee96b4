import Mathlib.Algebra.Group.Nat.Basic
import Mathlib.Logic.Function.Basic
import Mathlib.Data.List.Basic

/-!
# async_toolkit: the hash map in one thread

This module models `lockfree::HashMap<Key, Value, Buckets>` of
`include/async_toolkit/lockfree/hashmap.hpp` as the code runs in one thread.

**State.**  Each bucket's chain of nodes from its head, and `size_` (a `size_t`).  A node
is its key, its value and its `marked` flag; the chain order stands for `next`.  Nodes
live in `pool_`, which only hands out storage, so a node is kept as a value.  `Buckets`
and the `std::hash<Key>` in use form a `Config`; a `Config` has at least one bucket.

**Calls.**  With one thread every CAS finds what the thread last wrote, so the only
freedom left is `compare_exchange_weak`'s spurious failure: `insert` takes the number of
times its CAS fails before it succeeds.  After a failure `insert` scans the chain for a
live node of the key and returns `false` if it finds one; when the CAS succeeds at once
the new node is pushed whether or not the key is there.  `remove`, `update` and `find`
act on the first live node of the key in its chain.

**Abstraction.**  `view c m k` lists the values of the live nodes of `k`, newest first.
Each call acts on `view` as an operation on a map from keys to stacks of values (push,
pop, overwrite the top, read the top), leaving the other keys alone, whatever the hash
function and the collisions (`view_insert`, …).  The specification's finite map is the
case where no stack holds more than one value; a first-try `insert` of a present key
leaves the case (`duplicate_insert_survives_remove`).
-/

namespace AsyncToolkit
namespace Lockfree

/-- A `Node` without its `next`: key, value and `marked`. -/
structure HashMap.Node (K V : Type) where
  key : K
  value : V
  marked : Bool
  deriving DecidableEq, Repr

/-- The template arguments that matter: `Buckets`, at least one, and the hash function. -/
structure HashMap.Config (K : Type) where
  buckets : Nat
  buckets_pos : 0 < buckets
  hash : K → Nat

/-- The members of `HashMap`: each bucket's chain from `buckets_[b]`, and `size_`. -/
structure HashMap (K V : Type) where
  buckets : Nat → List (HashMap.Node K V)
  size : Nat

namespace HashMap

variable {K V : Type} [DecidableEq K]

/-- `hash_(key) % Buckets`. -/
def Config.bucket (c : Config K) (key : K) : Nat := c.hash key % c.buckets

/-- `current->key == key && !current->marked.load()`. -/
def live (key : K) (n : Node K V) : Bool := n.key == key && !n.marked

/-- `HashMap()`: every bucket `nullptr`, `size_ = 0`. -/
def empty : HashMap K V := ⟨fun _ => [], 0⟩

/-- The retry loop of `insert` on bucket `b`, its CAS failing `fails` more times: a
success pushes the new node and counts it; a failure returns `false` if a live node of
the key is in the chain. -/
def insertLoop (key : K) (value : V) (b : Nat) : Nat → HashMap K V → Bool × HashMap K V
  | 0, m =>
    (true, { buckets := Function.update m.buckets b (⟨key, value, false⟩ :: m.buckets b)
             size := (m.size + 1) % 2 ^ 64 })
  | fails + 1, m =>
    if (m.buckets b).any (live key) then (false, m) else insertLoop key value b fails m

/-- `insert(key, value)`, its CAS failing spuriously `fails` times. -/
def insert (c : Config K) (fails : Nat) (key : K) (value : V) (m : HashMap K V) :
    Bool × HashMap K V :=
  insertLoop key value (c.bucket key) fails m

/-- The walk of `remove` with `prev`: the first live node of `key` is marked and unlinked. -/
def removeFirst (key : K) : List (Node K V) → Bool × List (Node K V)
  | [] => (false, [])
  | n :: ns =>
    if live key n then (true, ns) else ((removeFirst key ns).1, n :: (removeFirst key ns).2)

/-- `remove(key)`: unlink the first live node of `key`, `size_.fetch_sub(1)`. -/
def remove (c : Config K) (key : K) (m : HashMap K V) : Bool × HashMap K V :=
  let r := removeFirst key (m.buckets (c.bucket key))
  if r.1 then
    (true, { buckets := Function.update m.buckets (c.bucket key) r.2
             size := (m.size + (2 ^ 64 - 1)) % 2 ^ 64 })
  else (false, m)

/-- The walk of `update`: store `value` in the first live node of `key`. -/
def updateFirst (key : K) (value : V) : List (Node K V) → Bool × List (Node K V)
  | [] => (false, [])
  | n :: ns =>
    if live key n then (true, { n with value := value } :: ns)
    else ((updateFirst key value ns).1, n :: (updateFirst key value ns).2)

/-- `update(key, new_value)`. -/
def update (c : Config K) (key : K) (value : V) (m : HashMap K V) : Bool × HashMap K V :=
  let r := updateFirst key value (m.buckets (c.bucket key))
  (r.1, { m with buckets := Function.update m.buckets (c.bucket key) r.2 })

/-- `find(key)`: the value of the first live node of `key`. -/
def find (c : Config K) (key : K) (m : HashMap K V) : Option V :=
  ((m.buckets (c.bucket key)).find? (live key)).map Node.value

/-- A public call; `insert` carries the number of spurious failures of its CAS. -/
inductive Call (K V : Type)
  | insert (fails : Nat) (key : K) (value : V)
  | remove (key : K)
  | update (key : K) (value : V)
  | find (key : K)
  | size
  deriving DecidableEq, Repr

/-- What a call returns. -/
inductive Reply (V : Type)
  | inserted (ok : Bool)
  | removed (ok : Bool)
  | updated (ok : Bool)
  | found (value : Option V)
  | size (n : Nat)
  deriving DecidableEq, Repr

/-- One call. -/
def call (c : Config K) : Call K V → HashMap K V → Reply V × HashMap K V
  | .insert fails key value, m =>
    (.inserted (m.insert c fails key value).1, (m.insert c fails key value).2)
  | .remove key, m => (.removed (m.remove c key).1, (m.remove c key).2)
  | .update key value, m => (.updated (m.update c key value).1, (m.update c key value).2)
  | .find key, m => (.found (m.find c key), m)
  | .size, m => (.size m.size, m)

/-- The replies to `calls`, made one after another on `m`, and the map after them. -/
def run (c : Config K) : List (Call K V) → HashMap K V → List (Reply V) × HashMap K V
  | [], m => ([], m)
  | a :: calls, m =>
    ((call c a m).1 :: (run c calls (call c a m).2).1, (run c calls (call c a m).2).2)

section Chains

/-- The values of the live nodes of `k` in a chain, newest first. -/
def values (k : K) (l : List (Node K V)) : List V := (l.filter (live k)).map Node.value

/-- `v :: vs` becomes `value :: vs`. -/
def setHead (value : V) : List V → List V
  | [] => []
  | _ :: vs => value :: vs

theorem live_of_ne {key k : K} {n : Node K V} (h : live key n = true) (hne : key ≠ k) :
    live k n = false := by
  simp only [live, Bool.and_eq_true, beq_iff_eq, Bool.not_eq_true'] at h
  simp [live, h.1, hne]

@[simp] theorem values_nil (k : K) : values k ([] : List (Node K V)) = [] := rfl

theorem values_cons (k : K) (n : Node K V) (ns : List (Node K V)) :
    values k (n :: ns) = if live k n then n.value :: values k ns else values k ns := by
  by_cases h : live k n <;> simp [values, List.filter_cons, h]

theorem values_eq_nil {k : K} {l : List (Node K V)} : values k l = [] ↔ l.any (live k) = false := by
  simp [values, List.filter_eq_nil_iff]

theorem find?_live (k : K) (l : List (Node K V)) :
    (l.find? (live k)).map Node.value = (values k l).head? := by
  induction l with
  | nil => rfl
  | cons n ns ih => by_cases h : live k n <;> simp [values_cons, h, ih]

theorem removeFirst_fst (key : K) (l : List (Node K V)) :
    (removeFirst key l).1 = l.any (live key) := by
  induction l with
  | nil => rfl
  | cons n ns ih => by_cases h : live key n <;> simp [removeFirst, h, ih]

/-- Unlinking the first live node of `key` drops the newest value of `key` and no other. -/
theorem values_removeFirst (key k : K) (l : List (Node K V)) :
    values k (removeFirst key l).2 = if key = k then (values k l).tail else values k l := by
  induction l with
  | nil => simp [removeFirst]
  | cons n ns ih =>
    by_cases h : live key n
    · by_cases hk : key = k
      · subst hk; simp [removeFirst, h, values_cons]
      · simp [removeFirst, h, values_cons, live_of_ne h hk, hk]
    · by_cases hk : key = k
      · subst hk; simp [removeFirst, h, values_cons, ih]
      · simp only [removeFirst, h, if_false, Bool.false_eq_true, values_cons, ih, hk]

theorem updateFirst_fst (key : K) (value : V) (l : List (Node K V)) :
    (updateFirst key value l).1 = l.any (live key) := by
  induction l with
  | nil => rfl
  | cons n ns ih => by_cases h : live key n <;> simp [updateFirst, h, ih]

/-- Storing into the first live node of `key` overwrites the newest value of `key`. -/
theorem values_updateFirst (key k : K) (value : V) (l : List (Node K V)) :
    values k (updateFirst key value l).2 =
      if key = k then setHead value (values k l) else values k l := by
  induction l with
  | nil => simp [updateFirst, setHead]
  | cons n ns ih =>
    have hlive : live k { n with value := value } = live k n := rfl
    by_cases h : live key n
    · by_cases hk : key = k
      · subst hk; simp [updateFirst, h, values_cons, hlive, setHead]
      · simp [updateFirst, h, values_cons, hlive, live_of_ne h hk, hk]
    · by_cases hk : key = k
      · subst hk; simp [updateFirst, h, values_cons, ih]
      · simp only [updateFirst, h, if_false, Bool.false_eq_true, values_cons, ih, hk]

end Chains

/-- The map the code implements, newest entry first: `insert` pushes an entry, `remove`
drops the newest entry of its key, `update` overwrites it and `find` reads it.  The
specification's finite map is the case where no key has two entries. -/
structure Multimap (K V : Type) where
  entries : List (K × V)

namespace Multimap

/-- The newest entry of `key` gets the value `value`. -/
def overwrite (key : K) (value : V) : List (K × V) → List (K × V)
  | [] => []
  | e :: es => if e.1 = key then (key, value) :: es else e :: overwrite key value es

/-- Some entry has the key. -/
def has (key : K) (s : Multimap K V) : Bool := s.entries.any (·.1 == key)

/-- The values of `key`, newest first. -/
def lookup (key : K) (s : Multimap K V) : List V := (s.entries.filter (·.1 == key)).map Prod.snd

/-- `insert`: a failed CAS that finds the key returns `false`; otherwise push. -/
def insert (fails : Nat) (key : K) (value : V) (s : Multimap K V) : Bool × Multimap K V :=
  if 0 < fails ∧ s.has key then (false, s) else (true, ⟨(key, value) :: s.entries⟩)

/-- `remove`: drop the newest entry of `key`. -/
def remove (key : K) (s : Multimap K V) : Bool × Multimap K V :=
  if s.has key then (true, ⟨s.entries.eraseP (·.1 == key)⟩) else (false, s)

/-- `update`: overwrite the newest entry of `key`. -/
def update (key : K) (value : V) (s : Multimap K V) : Bool × Multimap K V :=
  (s.has key, ⟨overwrite key value s.entries⟩)

/-- One call; `size()` is the number of entries as a `size_t`. -/
def call : Call K V → Multimap K V → Reply V × Multimap K V
  | .insert fails key value, s => (.inserted (s.insert fails key value).1, (s.insert fails key value).2)
  | .remove key, s => (.removed (s.remove key).1, (s.remove key).2)
  | .update key value, s => (.updated (s.update key value).1, (s.update key value).2)
  | .find key, s => (.found (s.lookup key).head?, s)
  | .size, s => (.size (s.entries.length % 2 ^ 64), s)

/-- The replies to `calls` and the multimap after them. -/
def run : List (Call K V) → Multimap K V → List (Reply V) × Multimap K V
  | [], s => ([], s)
  | a :: calls, s => ((call a s).1 :: (run calls (call a s).2).1, (run calls (call a s).2).2)

@[simp] theorem insert_zero (key : K) (value : V) (s : Multimap K V) :
    s.insert 0 key value = (true, ⟨(key, value) :: s.entries⟩) := rfl

@[simp] theorem update_snd (key : K) (value : V) (s : Multimap K V) :
    (s.update key value).2 = ⟨overwrite key value s.entries⟩ := rfl

theorem lookup_cons (key : K) (e : K × V) (es : List (K × V)) :
    lookup key ⟨e :: es⟩ = if e.1 = key then e.2 :: lookup key ⟨es⟩ else lookup key ⟨es⟩ := by
  by_cases h : e.1 = key <;> simp [lookup, List.filter_cons, h]

theorem has_eq_false {key : K} {s : Multimap K V} : s.has key = false ↔ s.lookup key = [] := by
  simp [has, lookup, List.filter_eq_nil_iff]

theorem lookup_eraseP (key k : K) (es : List (K × V)) :
    lookup k ⟨es.eraseP (·.1 == key)⟩ = if key = k then (lookup k ⟨es⟩).tail else lookup k ⟨es⟩ := by
  induction es with
  | nil => simp [lookup]
  | cons e es ih =>
    by_cases he : e.1 = key
    · by_cases hk : key = k
      · subst hk; simp [List.eraseP_cons, he, lookup_cons]
      · simp [List.eraseP_cons, he, lookup_cons, hk]
    · have he' : (e.1 == key) = false := by simpa using he
      simp only [List.eraseP_cons, he', cond_false, lookup_cons, he, if_false, ih]
      by_cases hk : key = k
      · subst hk; simp [he]
      · simp only [hk, if_false]

theorem lookup_overwrite (key k : K) (value : V) (es : List (K × V)) :
    lookup k ⟨overwrite key value es⟩ =
      if key = k then setHead value (lookup k ⟨es⟩) else lookup k ⟨es⟩ := by
  induction es with
  | nil => simp [overwrite, lookup, setHead]
  | cons e es ih =>
    by_cases he : e.1 = key
    · by_cases hk : key = k
      · subst hk; simp [overwrite, he, lookup_cons, setHead]
      · simp [overwrite, he, lookup_cons, hk]
    · simp only [overwrite, he, if_false, lookup_cons, ih]
      by_cases hk : key = k
      · subst hk; simp [he, setHead]
      · simp only [hk, if_false]

end Multimap

section Refinement

variable (c : Config K)

/-- `m` implements `s`: each key's live values in its bucket are its entries in `s`, and
`size_` counts the entries modulo `2 ^ 64`. -/
structure Implements (m : HashMap K V) (s : Multimap K V) : Prop where
  values_eq : ∀ k, values k (m.buckets (c.bucket k)) = s.lookup k
  size_eq : m.size = s.entries.length % 2 ^ 64

theorem Implements.empty : Implements c (empty : HashMap K V) ⟨[]⟩ :=
  ⟨fun _ => rfl, rfl⟩

variable {c} {m : HashMap K V} {s : Multimap K V}

theorem Implements.any_live (h : Implements c m s) (key : K) :
    (m.buckets (c.bucket key)).any (live key) = s.has key := by
  cases hs : s.has key
  · rw [← values_eq_nil, h.values_eq, ← Multimap.has_eq_false, hs]
  · by_contra hne
    have := Multimap.has_eq_false.2 ((h.values_eq key) ▸ values_eq_nil.2 (by simpa using hne))
    rw [hs] at this
    cases this

/-- Replacing the chain of `key`'s bucket by one whose values are the new entries' values
for every key of that bucket keeps the map implementing the new entries. -/
theorem Implements.replace (h : Implements c m s) (key : K) (l : List (Node K V))
    (s' : Multimap K V) (size' : Nat)
    (hl : ∀ k, c.bucket k = c.bucket key → values k l = s'.lookup k)
    (hother : ∀ k, key ≠ k → s'.lookup k = s.lookup k) (hsize : size' = s'.entries.length % 2 ^ 64) :
    Implements c ⟨Function.update m.buckets (c.bucket key) l, size'⟩ s' := by
  refine ⟨fun k => ?_, hsize⟩
  by_cases hb : c.bucket k = c.bucket key
  · dsimp only
    rw [hb, Function.update_same]
    exact hl k hb
  · dsimp only
    rw [Function.update_noteq hb, h.values_eq, hother k (fun hk => hb (hk ▸ rfl))]

theorem Implements.insert (h : Implements c m s) (fails : Nat) (key : K) (value : V) :
    (m.insert c fails key value).1 = (s.insert fails key value).1 ∧
      Implements c (m.insert c fails key value).2 (s.insert fails key value).2 := by
  induction fails with
  | zero =>
    rw [Multimap.insert_zero]
    refine ⟨rfl, h.replace key _ _ _ (fun k hk => ?_) (fun k hk => ?_) ?_⟩
    · rw [values_cons, Multimap.lookup_cons, ← hk, h.values_eq]
      by_cases hkk : key = k <;> simp [live, hkk]
    · rw [Multimap.lookup_cons, if_neg hk]
    · simp only [List.length_cons, h.size_eq, Nat.mod_add_mod]
  | succ f ih =>
    have hstep : m.insert c (f + 1) key value =
        if s.has key then (false, m) else m.insert c f key value := by
      rw [← h.any_live]; rfl
    rw [hstep]
    cases hs : s.has key
    · have habs : s.insert (f + 1) key value = s.insert f key value := by
        cases f <;> simp [Multimap.insert, hs]
      rw [habs]
      exact ih
    · have habs : s.insert (f + 1) key value = (false, s) := by simp [Multimap.insert, hs]
      rw [habs]
      exact ⟨rfl, h⟩

theorem Implements.remove (h : Implements c m s) (key : K) :
    (m.remove c key).1 = (s.remove key).1 ∧ Implements c (m.remove c key).2 (s.remove key).2 := by
  have hr : (removeFirst key (m.buckets (c.bucket key))).1 = s.has key := by
    rw [removeFirst_fst, h.any_live]
  cases hs : s.has key
  · have hc : m.remove c key = (false, m) := by simp [HashMap.remove, hr, hs]
    have ha : s.remove key = (false, s) := by simp [Multimap.remove, hs]
    rw [hc, ha]
    exact ⟨rfl, h⟩
  · have hc : m.remove c key = (true, ⟨Function.update m.buckets (c.bucket key)
        (removeFirst key (m.buckets (c.bucket key))).2, (m.size + (2 ^ 64 - 1)) % 2 ^ 64⟩) := by
      simp [HashMap.remove, hr, hs]
    have ha : s.remove key = (true, ⟨s.entries.eraseP (·.1 == key)⟩) := by
      simp [Multimap.remove, hs]
    rw [hc, ha]
    refine ⟨rfl, h.replace key _ _ _ (fun k hk => ?_) (fun k hk => ?_) ?_⟩
    · rw [values_removeFirst, ← hk, h.values_eq, Multimap.lookup_eraseP]
    · rw [Multimap.lookup_eraseP, if_neg hk]
    · obtain ⟨e, he, hek⟩ := List.any_eq_true.1 hs
      have hlen : (s.entries.eraseP (·.1 == key)).length = s.entries.length - 1 :=
        List.length_eraseP_of_mem he hek
      have hpos : 0 < s.entries.length := List.length_pos_of_mem he
      rw [hlen, h.size_eq]
      omega

theorem overwrite_length (key : K) (value : V) (es : List (K × V)) :
    (Multimap.overwrite key value es).length = es.length := by
  induction es with
  | nil => rfl
  | cons e es ih => by_cases he : e.1 = key <;> simp [Multimap.overwrite, he, ih]

theorem Implements.update (h : Implements c m s) (key : K) (value : V) :
    (m.update c key value).1 = (s.update key value).1 ∧
      Implements c (m.update c key value).2 (s.update key value).2 := by
  refine ⟨by rw [HashMap.update, Multimap.update, updateFirst_fst, h.any_live],
    h.replace key _ _ _ (fun k hk => ?_) (fun k hk => ?_) ?_⟩
  · rw [values_updateFirst, ← hk, h.values_eq, Multimap.update_snd, Multimap.lookup_overwrite]
  · rw [Multimap.update_snd, Multimap.lookup_overwrite, if_neg hk]
  · rw [Multimap.update_snd, overwrite_length]
    exact h.size_eq

theorem Implements.find (h : Implements c m s) (key : K) : m.find c key = (s.lookup key).head? := by
  rw [HashMap.find, find?_live, h.values_eq]

/-- One call answers as the multimap does and keeps the map implementing it. -/
theorem Implements.call (h : Implements c m s) (a : Call K V) :
    (HashMap.call c a m).1 = (Multimap.call a s).1 ∧
      Implements c (HashMap.call c a m).2 (Multimap.call a s).2 := by
  cases a with
  | insert fails key value =>
    obtain ⟨h1, h2⟩ := h.insert fails key value
    exact ⟨congrArg Reply.inserted h1, h2⟩
  | remove key =>
    obtain ⟨h1, h2⟩ := h.remove key
    exact ⟨congrArg Reply.removed h1, h2⟩
  | update key value =>
    obtain ⟨h1, h2⟩ := h.update key value
    exact ⟨congrArg Reply.updated h1, h2⟩
  | find key => exact ⟨congrArg Reply.found (h.find key), h⟩
  | size => exact ⟨congrArg Reply.size h.size_eq, h⟩

/-- Every sequence of calls gets the replies of the multimap and keeps the map
implementing it. -/
theorem Implements.run (h : Implements c m s) (calls : List (Call K V)) :
    (HashMap.run c calls m).1 = (Multimap.run calls s).1 ∧
      Implements c (HashMap.run c calls m).2 (Multimap.run calls s).2 := by
  induction calls generalizing m s with
  | nil => exact ⟨rfl, h⟩
  | cons a calls ih =>
    obtain ⟨h1, h2⟩ := h.call a
    obtain ⟨h3, h4⟩ := ih h2
    exact ⟨by rw [HashMap.run, Multimap.run, h1, h3], h4⟩

/-- With one spurious failure the retry finds the key: the second insert returns `false`. -/
example : (HashMap.run ⟨4, by decide, id⟩ [.insert 0 1 10, .insert 1 1 20] empty).1 =
    [.inserted true, .inserted false] := rfl

end Refinement

/-- Two inserts of key `1` whose CAS succeeds at once, then `size()`, `remove(1)`,
`find(1)` and `size()`, on a new map. -/
def duplicateCalls : List (Call Nat Nat) :=
  [.insert 0 1 10, .insert 0 1 20, .size, .remove 1, .find 1, .size]

/-- Whatever the hash function and the number of buckets, the second insert of a present
key returns `true` and counts a second entry, and after a successful `remove` the key is
still there with its old value. -/
theorem duplicate_insert_survives_remove (c : Config Nat) :
    (run c duplicateCalls empty).1 =
      [.inserted true, .inserted true, .size 2, .removed true, .found (some 10), .size 1] := by
  rw [((Implements.empty c).run duplicateCalls).1]
  rfl

end HashMap

end Lockfree
end AsyncToolkit
