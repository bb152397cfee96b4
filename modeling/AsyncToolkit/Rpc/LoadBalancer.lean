import Mathlib.Algebra.Group.Nat.Basic
import Mathlib.Data.List.Perm.Subperm
import Mathlib.Data.Nat.ModEq
import Mathlib.Data.List.Nodup

/-!
# async_toolkit: load balancers

This module models the deterministic load balancers of
`include/async_toolkit/rpc/load_balancer.hpp`: `RoundRobinLoadBalancer`,
`LeastConnLoadBalancer` and `ConsistentHashLoadBalancer`.  A server is its name.  Each call
of `select_server` is one step: the round-robin counter is one atomic `fetch_add`, and the
other two balancers hold `mutex_` for the whole call.

**Round robin.**  `current_index_` is a `size_t`, so `current_index_++` wraps at `2 ^ 64`.
`round_robin_window_is_permutation`: `N` calls in a row with the same `N` servers, short of
the wrap, choose each server once.  `round_robin_advances_iff`: the chosen position moves to
the next server at every call, except at the wrap when `N` does not divide `2 ^ 64`.

**Least connections.**  `select_server` keeps the first server of least recorded count, a
server never recorded counting `0`; `least_conn_selects_first_minimal` proves it equal to
the first server whose count is at most every other's.

**Consistent hashing.**  `std::hash<std::string>` is implementation-defined, so the hash of a
virtual node is a parameter, and the key, `std::hash<size_t>` of the clock, is an input of
the call.  The ring `std::map<size_t, std::string>` is the list of its assignments
`hash_ring_[h] = server` since its last `clear()`: `h` maps to the server of its last
assignment, and `lower_bound` and `begin` are the least hash at least the key and the
least hash.
-/

namespace AsyncToolkit
namespace Rpc

/-! ## Round robin -/

/-- `RoundRobinLoadBalancer`: its `size_t` counter `current_index_`. -/
structure RoundRobin where
  currentIndex : Nat
  lt : currentIndex < 2 ^ 64

namespace RoundRobin

/-- `RoundRobinLoadBalancer()`: `current_index_{0}`. -/
def new : RoundRobin := ⟨0, Nat.two_pow_pos 64⟩

/-- `select_server(servers)`: `servers[current_index_++ % servers.size()]`, or `""` when
there is no server. -/
def selectServer (b : RoundRobin) (servers : List String) : String × RoundRobin :=
  if servers.isEmpty then ("", b)
  else (servers.getD (b.currentIndex % servers.length) "",
    ⟨(b.currentIndex + 1) % 2 ^ 64, Nat.mod_lt _ (Nat.two_pow_pos 64)⟩)

/-- `k` calls of `select_server(servers)` in a row: the servers chosen, in order. -/
def selectRun (b : RoundRobin) (servers : List String) : Nat → List String × RoundRobin
  | 0 => ([], b)
  | k + 1 =>
    let r := b.selectServer servers
    let rest := r.2.selectRun servers k
    (r.1 :: rest.1, rest.2)

theorem selectServer_of_ne_nil (b : RoundRobin) {servers : List String} (hn : servers ≠ []) :
    b.selectServer servers = (servers.getD (b.currentIndex % servers.length) "",
      ⟨(b.currentIndex + 1) % 2 ^ 64, Nat.mod_lt _ (Nat.two_pow_pos 64)⟩) := by
  simp [selectServer, List.isEmpty_iff, hn]

/-- Short of the wrap, call `j` of a run chooses position `current_index_ + j`. -/
theorem selectRun_fst {servers : List String} (hn : servers ≠ []) :
    ∀ (k : Nat) (b : RoundRobin), b.currentIndex + k ≤ 2 ^ 64 →
      (b.selectRun servers k).1 =
        (List.range k).map fun j => servers.getD ((b.currentIndex + j) % servers.length) ""
  | 0, _, _ => rfl
  | k + 1, b, hk => by
    rw [selectRun, selectServer_of_ne_nil b hn, List.range_succ_eq_map, List.map_cons,
      List.map_map]
    dsimp only
    congr 1
    cases k with
    | zero => rfl
    | succ k =>
      have hnext : (b.currentIndex + 1) % 2 ^ 64 = b.currentIndex + 1 :=
        Nat.mod_eq_of_lt (by omega)
      refine (selectRun_fst hn (k + 1) _ (by simp only [hnext]; omega)).trans ?_
      simp only [hnext, Function.comp_def, Nat.add_assoc, Nat.add_comm 1]

/-- Positions `c, c + 1, …, c + N - 1` modulo `N` are each position once. -/
theorem range_map_add_mod_perm (c n : Nat) :
    ((List.range n).map fun j => (c + j) % n).Perm (List.range n) := by
  refine (List.Nodup.subperm ?_ fun x hx => ?_).perm_of_length_le (by simp)
  · refine List.Nodup.map_on (fun i hi j hj hij => ?_) (List.nodup_range n)
    have h : i % n = j % n := Nat.ModEq.add_left_cancel' c hij
    rwa [Nat.mod_eq_of_lt (List.mem_range.1 hi), Nat.mod_eq_of_lt (List.mem_range.1 hj)] at h
  · obtain ⟨j, hj, rfl⟩ := List.mem_map.1 hx
    exact List.mem_range.2 (Nat.mod_lt _ (Nat.pos_of_ne_zero fun h => by simp [h] at hj))

theorem map_getD_range (servers : List String) :
    (List.range servers.length).map (servers.getD · "") = servers :=
  List.ext_getElem (by simp) fun i _ h2 => by simp [List.getElem?_eq_getElem h2]

/-- `N` calls in a row with the same `N` servers, short of the wrap of `current_index_`,
choose every server once. -/
theorem round_robin_window_is_permutation (b : RoundRobin) {servers : List String}
    (hn : servers ≠ []) (hw : b.currentIndex + servers.length ≤ 2 ^ 64) :
    (b.selectRun servers servers.length).1.Perm servers := by
  rw [selectRun_fst hn _ b hw]
  have h := (range_map_add_mod_perm b.currentIndex servers.length).map (servers.getD · "")
  rw [List.map_map, map_getD_range] at h
  exact h

theorem round_robin_window_is_permutation_three :
    ["a", "b", "c"] ≠ [] ∧ new.currentIndex + ["a", "b", "c"].length ≤ 2 ^ 64 ∧
      (new.selectRun ["a", "b", "c"] 3).1.Perm ["a", "b", "c"] :=
  ⟨by decide, by decide, round_robin_window_is_permutation new (by decide) (by decide)⟩

/-- The position a call chooses is the one after the position of the call before, except
when `current_index_` wraps from `2 ^ 64 - 1` to `0` while the number of servers does not
divide `2 ^ 64`: then the server at position `0` can be chosen twice in a row. -/
theorem round_robin_advances_iff (b : RoundRobin) {servers : List String} (hn : servers ≠ []) :
    (b.selectServer servers).2.currentIndex % servers.length =
        (b.currentIndex % servers.length + 1) % servers.length ↔
      b.currentIndex + 1 < 2 ^ 64 ∨ servers.length ∣ 2 ^ 64 := by
  rw [selectServer_of_ne_nil b hn]
  dsimp only
  rw [Nat.mod_add_mod]
  have hlt := b.lt
  by_cases hw : b.currentIndex + 1 < 2 ^ 64
  · rw [Nat.mod_eq_of_lt hw]
    exact iff_of_true rfl (.inl hw)
  · have he : b.currentIndex + 1 = 2 ^ 64 := by omega
    simp only [he, Nat.mod_self, Nat.zero_mod, lt_self_iff_false, false_or]
    exact ⟨fun h => Nat.dvd_of_mod_eq_zero h.symm, fun h => (Nat.mod_eq_zero_of_dvd h).symm⟩

/-- The counter one call before it wraps. -/
def aboutToWrap : RoundRobin := ⟨2 ^ 64 - 1, by decide⟩

/-- Three servers, `2 ^ 64 - 1 ≡ 0 (mod 3)`: the server at position `0` is chosen twice in a
row. -/
example : (aboutToWrap.selectRun ["a", "b", "c"] 2).1 = ["a", "a"] := by decide

theorem round_robin_advances_iff_wrap :
    ["a", "b", "c"] ≠ [] ∧
      ((aboutToWrap.selectServer ["a", "b", "c"]).2.currentIndex % ["a", "b", "c"].length =
          (aboutToWrap.currentIndex % ["a", "b", "c"].length + 1) % ["a", "b", "c"].length ↔
        aboutToWrap.currentIndex + 1 < 2 ^ 64 ∨ ["a", "b", "c"].length ∣ 2 ^ 64) :=
  ⟨by decide, round_robin_advances_iff aboutToWrap (by decide)⟩

end RoundRobin

/-! ## Least connections -/

/-- `LeastConnLoadBalancer`: `connection_counts_`. -/
structure LeastConn where
  connectionCounts : String → Option Nat

namespace LeastConn

/-- `LeastConnLoadBalancer()`: no count recorded. -/
def new : LeastConn := ⟨fun _ => none⟩

/-- `get_connection_count(server)`: the recorded count, `0` for a server never recorded. -/
def getConnectionCount (b : LeastConn) (server : String) : Nat :=
  (b.connectionCounts server).getD 0

/-- One iteration of the loop of `select_server`: a server of smaller count replaces the
one selected. -/
def pick (b : LeastConn) (acc : String × Nat) (server : String) : String × Nat :=
  if b.getConnectionCount server < acc.2 then (server, b.getConnectionCount server) else acc

/-- `select_server(servers)`: start from `servers[0]` and keep the first server of least
count; `""` when there is no server. -/
def selectServer (b : LeastConn) : List String → String
  | [] => ""
  | s :: rest => (rest.foldl b.pick (s, b.getConnectionCount s)).1

/-- `update_server_stats(server, active_connections, _)`: record the count; the response
time is ignored. -/
def updateServerStats (b : LeastConn) (server : String) (activeConnections : Nat) : LeastConn :=
  ⟨Function.update b.connectionCounts server (some activeConnections)⟩

/-- The loop keeps the first server of least count of the servers it has seen: the
servers before it have larger counts, and none has a smaller one. -/
theorem foldl_pick (b : LeastConn) :
    ∀ (l pre : List String) (x : String), (∃ as bs, pre = as ++ x :: bs ∧
        ∀ a ∈ as, b.getConnectionCount x < b.getConnectionCount a) →
      (∀ y ∈ pre, b.getConnectionCount x ≤ b.getConnectionCount y) →
      ∃ z, l.foldl b.pick (x, b.getConnectionCount x) = (z, b.getConnectionCount z) ∧
        (∃ as bs, pre ++ l = as ++ z :: bs ∧
          ∀ a ∈ as, b.getConnectionCount z < b.getConnectionCount a) ∧
        ∀ y ∈ pre ++ l, b.getConnectionCount z ≤ b.getConnectionCount y
  | [], pre, x, hfirst, hmin => ⟨x, rfl, by simpa using hfirst, by simpa using hmin⟩
  | t :: l, pre, x, ⟨as, bs, hpre, has⟩, hmin => by
    rw [List.foldl_cons, List.append_cons]
    unfold pick
    split
    · rename_i hlt
      refine foldl_pick b l (pre ++ [t]) t ⟨pre, [], rfl, fun a ha => ?_⟩ fun y hy => ?_
      · exact Nat.lt_of_lt_of_le (by simpa using hlt) (hmin a ha)
      · rcases List.mem_append.1 hy with hy | hy
        · exact Nat.le_of_lt (Nat.lt_of_lt_of_le (by simpa using hlt) (hmin y hy))
        · rw [List.mem_singleton.1 hy]
    · rename_i hge
      refine foldl_pick b l (pre ++ [t]) x ⟨as, bs ++ [t], by simp [hpre], has⟩ fun y hy => ?_
      rcases List.mem_append.1 hy with hy | hy
      · exact hmin y hy
      · rw [List.mem_singleton.1 hy]; simpa using hge

/-- `select_server` returns the first server whose recorded count is at most every other
server's: the least-connections server, ties going to the earliest. -/
theorem least_conn_selects_first_minimal (b : LeastConn) (servers : List String) :
    b.selectServer servers = (servers.find? fun s =>
      servers.all fun t => b.getConnectionCount s ≤ b.getConnectionCount t).getD "" := by
  cases servers with
  | nil => rfl
  | cons s rest =>
    obtain ⟨z, hz, ⟨as, bs, hsplit, has⟩, hmin⟩ :=
      foldl_pick b rest [s] s ⟨[], [], rfl, by simp⟩ (by simp)
    rw [selectServer, hz, List.singleton_append] at *
    rw [(List.find?_eq_some.2 ⟨?_, as, bs, hsplit, fun a ha => ?_⟩ : _ = some z)]
    · rfl
    · simpa using hmin
    · have hz' : z ∈ s :: rest := hsplit ▸ List.mem_append_right _ (List.mem_cons_self _ _)
      rw [Bool.not_eq_true', List.all_eq_false]
      exact ⟨z, hz', by simpa using has a ha⟩

end LeastConn

/-! ## Consistent hashing -/

/-- Where `select_server` has undefined behaviour: `it->second` with
`it == hash_ring_.end()`, which happens on an empty ring. -/
inductive Fault
  | derefEnd
  deriving DecidableEq, Repr

/-- `ConsistentHashLoadBalancer`: `virtual_nodes_`, `current_servers_`, and `hash_ring_` as
the list of its assignments since its last `clear()`. -/
structure ConsistentHash where
  virtualNodes : Nat
  currentServers : List String
  hashRing : List (Nat × String)

namespace ConsistentHash

/-- `ConsistentHashLoadBalancer(virtual_nodes)`: no server, an empty ring. -/
def new (virtualNodes : Nat) : ConsistentHash := ⟨virtualNodes, [], []⟩

/-- `rebuild_hash_ring(servers)`: `hash_ring_.clear()`, then
`hash_ring_[hash(server + "#" + std::to_string(i))] = server` for each server in order and
each `i < virtual_nodes_`. -/
def rebuildHashRing (hash : String → Nat) (virtualNodes : Nat) (servers : List String) :
    List (Nat × String) :=
  servers.flatMap fun server =>
    (List.range virtualNodes).map fun i => (hash (server ++ "#" ++ toString i), server)

/-- The test of `rebuild_if_needed`: the sizes differ, or some position holds another
server. -/
def needRebuild (servers current : List String) : Bool :=
  servers.length != current.length || (servers.zip current).any fun p => p.1 != p.2

/-- `rebuild_if_needed(servers)`. -/
def rebuildIfNeeded (hash : String → Nat) (b : ConsistentHash) (servers : List String) :
    ConsistentHash :=
  if needRebuild servers b.currentServers then
    { b with hashRing := rebuildHashRing hash b.virtualNodes servers, currentServers := servers }
  else b

/-- `hash_ring_[h]` read back: the server of the last assignment to `h`. -/
def ringAt (ring : List (Nat × String)) (h : Nat) : Option String :=
  ring.foldl (fun acc e => if e.1 = h then some e.2 else acc) none

/-- `hash_ring_.lower_bound(key)`: the least hash at least `key`; `none` is `end()`. -/
def lowerBound (ring : List (Nat × String)) (key : Nat) : Option Nat :=
  ((ring.map Prod.fst).filter (key ≤ ·)).min?

/-- `hash_ring_.begin()`: the least hash; `none` is `end()`. -/
def ringBegin (ring : List (Nat × String)) : Option Nat := (ring.map Prod.fst).min?

/-- `select_server(servers)`, the clock hashing to `key`: `lower_bound(key)`, wrapped to
`begin()` at `end()`, and its server. -/
def selectServer (hash : String → Nat) (b : ConsistentHash) (servers : List String)
    (key : Nat) : Except Fault (String × ConsistentHash) :=
  if servers.isEmpty then .ok ("", b)
  else
    let b := b.rebuildIfNeeded hash servers
    match lowerBound b.hashRing key <|> ringBegin b.hashRing with
    | some h => .ok ((ringAt b.hashRing h).getD "", b)
    | none => .error .derefEnd

/-- The balancers a program reaches from `ConsistentHashLoadBalancer(virtual_nodes)`, call
after call. -/
inductive Reachable (hash : String → Nat) (virtualNodes : Nat) : ConsistentHash → Prop
  | new : Reachable hash virtualNodes (new virtualNodes)
  | select {b b' : ConsistentHash} {servers : List String} {key : Nat} {s : String} :
      Reachable hash virtualNodes b → b.selectServer hash servers key = .ok (s, b') →
        Reachable hash virtualNodes b'

/-! ### The ring -/

theorem needRebuild_iff : ∀ servers current : List String,
    needRebuild servers current = true ↔ servers ≠ current
  | [], [] => by simp [needRebuild]
  | [], _ :: _ => by simp [needRebuild]
  | _ :: _, [] => by simp [needRebuild]
  | s :: ss, c :: cs => by
    have ih := needRebuild_iff ss cs
    simp only [needRebuild, Bool.or_eq_true, bne_iff_ne, ne_eq] at ih
    simp only [needRebuild, List.length_cons, List.zip_cons_cons, List.any_cons, Bool.or_eq_true,
      bne_iff_ne, ne_eq, Nat.add_right_cancel_iff, List.cons.injEq, not_and_or]
    tauto

/-- The read of one hash, from any start. -/
theorem foldl_ringAt (h : Nat) : ∀ (ring : List (Nat × String)) (init : Option String),
    ring.foldl (fun acc e => if e.1 = h then some e.2 else acc) init = (ringAt ring h).or init
  | [], init => rfl
  | e :: ring, init => by
    simp only [ringAt, List.foldl_cons]
    rw [foldl_ringAt h ring, foldl_ringAt h ring]
    split <;> cases ringAt ring h <;> rfl

/-- Later assignments win. -/
theorem ringAt_append (r s : List (Nat × String)) (h : Nat) :
    ringAt (r ++ s) h = (ringAt s h).or (ringAt r h) := by
  rw [ringAt, List.foldl_append, foldl_ringAt]
  rfl

theorem ringAt_eq_some {ring : List (Nat × String)} {h : Nat} {v : String}
    (hv : ringAt ring h = some v) : (h, v) ∈ ring := by
  induction ring using List.reverseRecOn with
  | nil => cases hv
  | append_singleton ring e ih =>
    rw [ringAt_append] at hv
    simp only [ringAt, List.foldl_cons, List.foldl_nil] at hv
    split at hv
    · cases hv; rename_i he; exact List.mem_append_right _ (by simp [← he])
    · exact List.mem_append_left _ (ih hv)

theorem ringAt_eq_none {ring : List (Nat × String)} {h : Nat} :
    ringAt ring h = none ↔ h ∉ ring.map Prod.fst := by
  induction ring using List.reverseRecOn with
  | nil => simp [ringAt]
  | append_singleton ring e ih =>
    rw [ringAt_append]
    simp only [ringAt, List.foldl_cons, List.foldl_nil] at ih ⊢
    split <;> simp_all [eq_comm]

/-- The entries of the ring name the servers. -/
theorem mem_rebuildHashRing {hash : String → Nat} {virtualNodes : Nat} {servers : List String}
    {e : Nat × String} (he : e ∈ rebuildHashRing hash virtualNodes servers) : e.2 ∈ servers := by
  obtain ⟨server, hs, he⟩ := List.mem_flatMap.1 he
  obtain ⟨i, -, rfl⟩ := List.mem_map.1 he
  exact hs

theorem rebuildHashRing_append (hash : String → Nat) (virtualNodes : Nat)
    (servers more : List String) :
    rebuildHashRing hash virtualNodes (servers ++ more) =
      rebuildHashRing hash virtualNodes servers ++ rebuildHashRing hash virtualNodes more :=
  List.flatMap_append _ _ _

theorem rebuildHashRing_eq_nil_iff {hash : String → Nat} {virtualNodes : Nat}
    {servers : List String} (hn : servers ≠ []) :
    rebuildHashRing hash virtualNodes servers = [] ↔ virtualNodes = 0 := by
  obtain ⟨s, hs⟩ := List.exists_mem_of_ne_nil servers hn
  simp only [rebuildHashRing, List.flatMap_eq_nil_iff, List.map_eq_nil_iff, List.range_eq_nil]
  exact ⟨fun h => h s hs, fun h _ _ => h⟩

/-- The least element of a list that lies in its first part is the least of that part. -/
theorem min?_of_append {a b : List Nat} {m : Nat} (h : (a ++ b).min? = some m) (hm : m ∈ a) :
    a.min? = some m := by
  rw [List.min?_eq_some_iff'] at h ⊢
  exact ⟨hm, fun x hx => h.2 x (List.mem_append_left _ hx)⟩

/-- The position of a key in a ring. -/
theorem lowerBound_or_begin_mem {ring : List (Nat × String)} {key h : Nat}
    (hp : (lowerBound ring key <|> ringBegin ring) = some h) : h ∈ ring.map Prod.fst := by
  cases hl : lowerBound ring key with
  | some h' =>
    rw [hl] at hp
    cases hp
    exact (List.mem_filter.1 (List.min?_mem min_choice hl)).1
  | none =>
    rw [hl] at hp
    exact List.min?_mem min_choice hp

theorem lowerBound_or_begin_eq_none {ring : List (Nat × String)} {key : Nat} :
    (lowerBound ring key <|> ringBegin ring) = none ↔ ring = [] := by
  cases hl : lowerBound ring key with
  | some h' =>
    simp only [lowerBound, List.min?_eq_none_iff] at hl
    simp only [Option.some_orElse, reduceCtorEq, false_iff]
    rintro rfl
    simp at hl
  | none => simp [ringBegin]

/-- The position of a key in a ring with more entries appended, when it is not one of the
new hashes, is its position in the ring before. -/
theorem position_of_append {r s : List (Nat × String)} {key h : Nat}
    (hp : (lowerBound (r ++ s) key <|> ringBegin (r ++ s)) = some h)
    (hs : h ∉ s.map Prod.fst) : (lowerBound r key <|> ringBegin r) = some h := by
  have hr : h ∈ r.map Prod.fst := by
    simpa [hs] using lowerBound_or_begin_mem hp
  cases hl : lowerBound (r ++ s) key with
  | some h' =>
    rw [hl] at hp
    cases hp
    unfold lowerBound at hl
    have hkey := (List.mem_filter.1 (List.min?_mem min_choice hl)).2
    rw [List.map_append, List.filter_append] at hl
    rw [lowerBound, min?_of_append hl (List.mem_filter.2 ⟨hr, hkey⟩)]
    rfl
  | none =>
    rw [hl] at hp
    simp only [lowerBound, List.min?_eq_none_iff, List.map_append, List.filter_append,
      List.append_eq_nil] at hl
    simp only [lowerBound, hl.1, List.min?_nil, Option.none_orElse]
    simp only [Option.none_orElse, ringBegin, List.map_append] at hp
    exact min?_of_append hp hr

/-- A hash for the examples: the sum of the character codes. -/
def charSum (s : String) : Nat := s.toList.foldl (fun n c => n + c.toNat) 0

/-! ### Runs -/

section Runs

variable {hash : String → Nat} {virtualNodes : Nat}

/-- The ring is always the one built from `current_servers_`. -/
theorem Reachable.ring {b : ConsistentHash} (hr : Reachable hash virtualNodes b) :
    b.virtualNodes = virtualNodes ∧
      b.hashRing = rebuildHashRing hash virtualNodes b.currentServers := by
  induction hr with
  | new => exact ⟨rfl, rfl⟩
  | select _ hs ih =>
    rename_i b b' servers key s
    unfold selectServer at hs
    split at hs
    · cases hs; exact ih
    · dsimp only at hs
      split at hs
      · cases hs
        unfold rebuildIfNeeded
        split
        · exact ⟨ih.1, by rw [ih.1]⟩
        · exact ih
      · cases hs

/-- On a reachable balancer, `rebuild_if_needed(servers)` leaves the ring of `servers`. -/
theorem Reachable.rebuildIfNeeded_eq {b : ConsistentHash} (hr : Reachable hash virtualNodes b)
    (servers : List String) :
    b.rebuildIfNeeded hash servers = ⟨virtualNodes, servers, rebuildHashRing hash virtualNodes servers⟩ := by
  obtain ⟨hv, hring⟩ := hr.ring
  unfold rebuildIfNeeded
  split
  · rw [hv]
  · rename_i hn
    have he : servers = b.currentServers := by
      by_contra he
      exact hn ((needRebuild_iff _ _).2 he)
    cases b
    simp_all

theorem Reachable.selectServer_eq {b : ConsistentHash} (hr : Reachable hash virtualNodes b)
    {servers : List String} (hn : servers ≠ []) (key : Nat) :
    b.selectServer hash servers key =
      match lowerBound (rebuildHashRing hash virtualNodes servers) key <|>
          ringBegin (rebuildHashRing hash virtualNodes servers) with
      | some h => .ok ((ringAt (rebuildHashRing hash virtualNodes servers) h).getD "",
          ⟨virtualNodes, servers, rebuildHashRing hash virtualNodes servers⟩)
      | none => .error .derefEnd := by
  simp only [selectServer, List.isEmpty_iff, hn, if_false, hr.rebuildIfNeeded_eq]

/-- The server `select_server` returns depends only on the servers and the key, never on
the calls before: it is the server a new balancer would return. -/
theorem consistent_hash_history_independent {b : ConsistentHash}
    (hr : Reachable hash virtualNodes b) (servers : List String) (key : Nat) :
    Prod.fst <$> b.selectServer hash servers key =
      Prod.fst <$> (new virtualNodes).selectServer hash servers key := by
  by_cases hn : servers = []
  · simp [selectServer, hn]
  · rw [hr.selectServer_eq hn, Reachable.new.selectServer_eq hn]

/-- A balancer with two virtual nodes that has served the list `["a"]`. -/
def servedA : ConsistentHash := ⟨2, ["a"], rebuildHashRing charSum 2 ["a"]⟩

theorem reachable_servedA : Reachable charSum 2 servedA :=
  .select .new (rfl : (new 2).selectServer charSum ["a"] 0 = .ok ("a", servedA))

theorem consistent_hash_history_independent_servedA :
    Prod.fst <$> servedA.selectServer charSum ["a", "b"] 181 =
      Prod.fst <$> (new 2).selectServer charSum ["a", "b"] 181 :=
  consistent_hash_history_independent reachable_servedA _ _

/-- `select_server` has undefined behaviour, on some server, exactly when the balancer was
built with `virtual_nodes = 0`: its ring is empty and `begin()` is `end()`. -/
theorem consistent_hash_faults_iff_no_virtual_nodes {b : ConsistentHash}
    (hr : Reachable hash virtualNodes b) {servers : List String} (hn : servers ≠ [])
    (key : Nat) :
    b.selectServer hash servers key = .error .derefEnd ↔ virtualNodes = 0 := by
  rw [hr.selectServer_eq hn, ← rebuildHashRing_eq_nil_iff hn, ← @lowerBound_or_begin_eq_none _ key]
  cases lowerBound (rebuildHashRing hash virtualNodes servers) key <|>
    ringBegin (rebuildHashRing hash virtualNodes servers) <;> simp

theorem consistent_hash_faults_iff_no_virtual_nodes_zero :
    ["a"] ≠ [] ∧ ((new 0).selectServer charSum ["a"] 7 = .error .derefEnd ↔ 0 = 0) :=
  ⟨by decide, consistent_hash_faults_iff_no_virtual_nodes .new (by decide) 7⟩

/-- Every server `select_server` returns is one of the servers it was given. -/
theorem consistent_hash_selects_given_server {b b' : ConsistentHash}
    (hr : Reachable hash virtualNodes b) {servers : List String} {key : Nat} {s : String}
    (hs : b.selectServer hash servers key = .ok (s, b')) (hn : servers ≠ []) : s ∈ servers := by
  rw [hr.selectServer_eq hn] at hs
  split at hs
  · rename_i h hp
    cases hs
    obtain ⟨v, hv⟩ := Option.ne_none_iff_exists'.1 fun hnone =>
      ringAt_eq_none.1 hnone (lowerBound_or_begin_mem hp)
    rw [hv]
    exact mem_rebuildHashRing (ringAt_eq_some hv)
  · cases hs

theorem consistent_hash_selects_given_server_ab :
    (new 2).selectServer charSum ["a", "b"] 181 =
        .ok ("b", ⟨2, ["a", "b"], rebuildHashRing charSum 2 ["a", "b"]⟩) ∧ ["a", "b"] ≠ [] ∧
      "b" ∈ ["a", "b"] := by
  have hs : (new 2).selectServer charSum ["a", "b"] 181 =
      .ok ("b", ⟨2, ["a", "b"], rebuildHashRing charSum 2 ["a", "b"]⟩) := rfl
  exact ⟨hs, by decide, consistent_hash_selects_given_server .new hs (by decide)⟩

/-- Consistency: with a server added at the end of the list, a key is served by the server
that served it before, or by the new one. -/
theorem consistent_hash_add_server_moves_only_to_it {b b' : ConsistentHash}
    (hr : Reachable hash virtualNodes b) {servers : List String} {s : String} {key : Nat}
    {x : String} (hx : b.selectServer hash (servers ++ [s]) key = .ok (x, b')) :
    x = s ∨ ∃ b'', b.selectServer hash servers key = .ok (x, b'') := by
  rw [hr.selectServer_eq (by simp)] at hx
  split at hx
  · rename_i h hp
    cases hx
    rw [rebuildHashRing_append] at hp ⊢
    rw [ringAt_append]
    cases hsv : ringAt (rebuildHashRing hash virtualNodes [s]) h with
    | some v =>
      left
      simpa [hsv] using mem_rebuildHashRing (ringAt_eq_some hsv)
    | none =>
      right
      have hold := position_of_append hp (ringAt_eq_none.1 hsv)
      have hn : servers ≠ [] := by
        rintro rfl
        simp [lowerBound, ringBegin, rebuildHashRing] at hold
      refine ⟨⟨virtualNodes, servers, rebuildHashRing hash virtualNodes servers⟩, ?_⟩
      rw [hr.selectServer_eq hn key, hold]
      rfl
  · cases hx

/-- With `"c"` added, the key `183`, which wrapped around to `"a"`, moves to `"c"`. -/
theorem consistent_hash_add_server_moves_only_to_it_c :
    (new 2).selectServer charSum (["a", "b"] ++ ["c"]) 183 =
        .ok ("c", ⟨2, ["a", "b", "c"], rebuildHashRing charSum 2 ["a", "b", "c"]⟩) ∧
      ("c" = "c" ∨ ∃ b'', (new 2).selectServer charSum ["a", "b"] 183 = .ok ("c", b'')) := by
  have hs : (new 2).selectServer charSum (["a", "b"] ++ ["c"]) 183 =
      .ok ("c", ⟨2, ["a", "b", "c"], rebuildHashRing charSum 2 ["a", "b", "c"]⟩) := rfl
  exact ⟨hs, consistent_hash_add_server_moves_only_to_it .new hs⟩

end Runs

end ConsistentHash

end Rpc
end AsyncToolkit
