import AsyncToolkit.Lockfree.BPlusTree

/-!
# async_toolkit: the splits of `BPlusTree::insert`

**Retry loop.**  `insert_in_parent` returns `true` on every path that returns
(`insertInParent_returns_true`), so the `continue` of `insert` is never taken
and one round of its loop is the whole call.

**Leaf split.**  When the leaf for `key` is full, `insert` splits it, links the new
leaf and adds the separator to the parent, then returns `true`: the key it was
asked to store is stored nowhere (`split_insert_drops_key`).

**Internal split.**  The copy loop of `insert_in_parent` fills the children
`0, …, moved - 1` of the new node and the store after it fills child
`moved + 1`: child `moved`, the last child of a node with `moved` keys, stays
`nullptr` (`receiveUpperHalf_last_child`).  A `find` routed there dereferences it
(`internal_split_null_child`).
-/

namespace AsyncToolkit
namespace Lockfree
namespace BPlusTree

section Returns

variable {K V : Type}

/-- Whenever `m` returns, it returns `true`. -/
def ReturnsTrue (m : TreeM K V Bool) : Prop :=
  ∀ t r, m.run t = .ok r → r.1 = true

theorem ReturnsTrue.pure : ReturnsTrue (K := K) (V := V) (pure true) := by
  intro t r h
  cases h
  rfl

theorem ReturnsTrue.bind {α : Type} {x : TreeM K V α} {f : α → TreeM K V Bool}
    (hf : ∀ a, ReturnsTrue (f a)) : ReturnsTrue (x >>= f) := by
  intro t r h
  rw [StateT.run_bind] at h
  cases hx : x.run t with
  | error e => rw [hx] at h; cases h
  | ok p => rw [hx] at h; exact hf p.1 p.2 r h

variable [LinearOrder K] [Inhabited K]

theorem insertInParent_returns_true (order : Nat) (left : NodeRef) (key : K) (right : NodeRef)
    (path : List Nat) : ReturnsTrue (V := V) (insertInParent order left key right path) := by
  induction path generalizing left key right with
  | nil => exact .bind fun _ => .bind fun _ => .bind fun _ => .pure
  | cons p upper ih =>
    refine .bind fun ok => ?_
    cases ok
    · exact .bind fun _ => .bind fun _ => .bind fun _ => .bind fun _ => ih _ _ _
    · exact .pure

end Returns

section Split

variable {K : Type} [Inhabited K]

theorem receiveUpperHalf_last_child (src : InternalNode K) (h : 0 < src.size) :
    (src.receiveUpperHalf InternalNode.init).children
      (src.receiveUpperHalf InternalNode.init).size = none := by
  have hmid : src.size / 2 < src.size := Nat.div_lt_self h (by decide)
  simp only [InternalNode.receiveUpperHalf, InternalNode.init, Function.update_apply,
    copyRange_apply]
  rw [if_neg (by omega), if_neg (by omega)]

end Split

/-- Four inserts into an `Order = 3` tree, the fourth into the full root leaf, and
a `find` of the fourth key (latest call first). -/
def leafSplitCalls : List (Call Nat Nat) :=
  [.find 4, .insert 4 40, .insert 3 30, .insert 2 20, .insert 1 10]

theorem split_insert_drops_key :
    replies 3 leafSplitCalls =
      [.ok (.found none), .ok (.inserted true), .ok (.inserted true), .ok (.inserted true),
        .ok (.inserted true)] := by
  decide

/-- Ten inserts into an `Order = 3` tree (latest first).  Each insert into a full
leaf is repeated, since the first one only splits; the last one splits the full
root. -/
def internalSplitCalls : List (Call Nat Nat) :=
  [.insert 7 7, .insert 6 6, .insert 6 6, .insert 5 5, .insert 5 5, .insert 4 4, .insert 4 4,
    .insert 3 3, .insert 2 2, .insert 1 1]

theorem internal_split_null_child :
    replies 3 internalSplitCalls = List.replicate 10 (.ok (.inserted true)) ∧
      (findLeafNode 5).run' (treeAfter 3 internalSplitCalls) = .error .nullDeref := by
  decide

end BPlusTree
end Lockfree
end AsyncToolkit
