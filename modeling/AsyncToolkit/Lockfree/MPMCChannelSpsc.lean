import AsyncToolkit.Lockfree.MPMCChannel
import AsyncToolkit.Lockfree.MPMCQueueSpsc

/-!
# async_toolkit: the MPMC channel with one producer and one consumer

With two producers a receive can free the node `tail_` still names and lose a value
(`freed_tail_loses_value`); with one sender, thread `0`, and one receiver, thread
`1`, the channel keeps its shape and its bound.  Its values are another matter: a
spurious failure of the receiver's `head_` CAS after the move already loses one
(`spurious_cas_receives_moved_from`), so this module counts nodes, not values.

**Invariant.**  `Core` relates the memory to the list `L` of nodes reachable from
`head_`.  Only the sender writes `tail_`, and `tail_` is the last node of `L`
except between the link and the `tail_` CAS; then the receiver may already have
moved `head_` onto the new node and freed the node `tail_` names, which the CAS
repairs.  The nodes after the dummy node, plus the one the receiver has unlinked,
plus the values received, are the values sent plus the one the sender has linked;
`size_` is the number sent minus the number received, modulo `2 ^ 64`.

**Results.**  In every state of such a run at most `capacity` nodes are linked after
`head_` (`spsc_held_le`).
-/

namespace AsyncToolkit
namespace Lockfree
namespace MPMCChannel

open Memory

variable {α : Type}

/-! ### What each thread holds -/

/-- The node a send holds between `allocate` and the link that publishes it. -/
def Send.owned : Send α → List Nat
  | .loadTail _ n | .loadNext _ n _ | .checkTail _ n _ _ | .linkNext _ n _ | .helpTail _ n _ _ =>
    [n]
  | _ => []

/-- A send has linked its node and `size_` does not count it yet. -/
def Send.linked : Send α → Nat
  | .swingTail _ _ _ | .addSize _ => 1
  | _ => 0

/-- A send has passed the capacity check and not yet linked its node. -/
def Send.reserved : Send α → Prop
  | .checkSize _ | .swingTail _ _ _ | .addSize _ => False
  | _ => True

/-- The old head a receive has unlinked and not yet freed. -/
def Recv.owned : Recv α → List Nat
  | .free h _ => [h]
  | _ => []

/-- A receive has unlinked a node and `size_` does not count it yet. -/
def Recv.taken : Recv α → Nat
  | .free _ _ | .subSize _ => 1
  | _ => 0

namespace Thread

/-- The blocks a thread holds outside the channel. -/
def owned : Thread α → List Nat
  | .send pc => pc.owned
  | .recv pc => pc.owned
  | .idle => []

def linked : Thread α → Nat
  | .send pc => pc.linked
  | _ => 0

def taken : Thread α → Nat
  | .recv pc => pc.taken
  | _ => 0

def reserved : Thread α → Prop
  | .send pc => pc.reserved
  | _ => False

end Thread

/-! ### The facts of each program point -/

section Facts

variable (next : Nat → Option Nat) (tail : Nat) (L : List Nat)

/-- `tail_` is the last node of `L`. -/
def TailLast : Prop := tail ∈ L ∧ next tail = none

/-- What the locals of `try_send_impl` satisfy; `tail` is `tail_`. -/
def SendAt : Send α → Prop
  | .checkSize _ | .allocate _ | .addSize _ => TailLast next tail L
  | .loadTail _ node => (node ∉ L ∧ next node = none) ∧ TailLast next tail L
  | .loadNext _ node t | .linkNext _ node t =>
    (node ∉ L ∧ next node = none) ∧ TailLast next tail L ∧ t = tail
  | .checkTail _ node t nx =>
    (node ∉ L ∧ next node = none) ∧ TailLast next tail L ∧ t = tail ∧ nx = none
  | .helpTail _ _ _ _ => False
  | .swingTail _ node t => node ∈ L ∧ next node = none ∧ t = tail ∧ next t = some node

/-- The sender thread: idle or inside `try_send_impl`. -/
def ProdAt : Thread α → Prop
  | .idle => TailLast next tail L
  | .send pc => SendAt next tail L pc
  | .recv _ => False

end Facts

section Facts

variable (next : Nat → Option Nat) (head : Nat)

/-- What the locals of `try_receive_impl` satisfy; `head` is `head_`. -/
def RecvAt : Recv α → Prop
  | .loadHead | .free _ _ | .subSize _ => True
  | .loadNext h => h = head
  | .checkHead h nx => h = head ∧ ∀ n, nx = some n → next h = some n
  | .moveData h n | .casHead h n _ => h = head ∧ next h = some n

/-- The receiver thread: idle or inside `try_receive_impl`. -/
def ConsAt : Thread α → Prop
  | .idle => True
  | .recv pc => RecvAt next head pc
  | .send _ => False

end Facts

/-- The invariant of the channel with sender `p`, receiver `c`, the values `sent` and
`recv` of the calls that succeeded, and the nodes `L` reachable from `head_`. -/
structure Core (cfg : Config) (m : Mem α) (p c : Thread α) (sent recv : List α)
    (L : List Nat) : Prop where
  chain : Chain m.next (some m.head) L
  layout : MemoryPool.Layout cfg.blocks m.pool (L ++ p.owned ++ c.owned)
  held : L.tail.length + c.taken + recv.length = sent.length + p.linked
  bound : sent.length + p.linked ≤ recv.length + cfg.capacity
  size_mod : (m.size + recv.length) % 2 ^ 64 = sent.length % 2 ^ 64
  size_lt : m.size < 2 ^ 64
  room : p.reserved → sent.length < recv.length + cfg.capacity
  prod : ProdAt m.next m.tail L p
  cons : ConsAt m.next m.head c

/-! ### Each side's facts under the other side's steps -/

section Stable

variable {next : Nat → Option Nat} {tail : Nat}

/-- The receiver unlinks the first node `a`, which has a successor. -/
theorem ProdAt.dropHead {a : Nat} {R : List Nat} {p : Thread α}
    (h : ProdAt next tail (a :: R) p) (ha : next a ≠ none) : ProdAt next tail R p := by
  have keep : ∀ {x}, x ∈ a :: R → next x = none → x ∈ R := fun hx hn =>
    (List.mem_cons.1 hx).resolve_left fun e => ha (e ▸ hn)
  have out : ∀ {x}, x ∉ a :: R → x ∉ R := fun hx hR => hx (List.mem_cons_of_mem _ hR)
  have last : TailLast next tail (a :: R) → TailLast next tail R := fun ⟨ht, hn⟩ =>
    ⟨keep ht hn, hn⟩
  rcases p with _ | pc | _
  · exact last h
  · cases pc with
    | checkSize | allocate | addSize => exact last h
    | loadTail => exact ⟨⟨out h.1.1, h.1.2⟩, last h.2⟩
    | loadNext | linkNext => exact ⟨⟨out h.1.1, h.1.2⟩, last h.2.1, h.2.2⟩
    | checkTail => exact ⟨⟨out h.1.1, h.1.2⟩, last h.2.1, h.2.2⟩
    | helpTail => exact h.elim
    | swingTail => exact ⟨keep h.1 h.2.1, h.2⟩
  · exact h

/-- The receiver's facts survive a step that keeps `head_` and its link. -/
theorem ConsAt.mono {next' : Nat → Option Nat} {head : Nat} {c : Thread α}
    (h : ConsAt next head c) (hnext : ∀ y, next head = some y → next' head = some y) :
    ConsAt next' head c := by
  rcases c with _ | _ | pc
  · trivial
  · exact h
  · cases pc with
    | loadHead | free | subSize | loadNext => exact h
    | checkHead =>
      obtain ⟨rfl, hs⟩ := h
      exact ⟨rfl, fun n e => hnext n (hs n e)⟩
    | moveData | casHead =>
      obtain ⟨rfl, hn⟩ := h
      exact ⟨rfl, hnext _ hn⟩

end Stable

/-! ### Steps of the sender -/

namespace Core

variable {cfg : Config} {m : Mem α} {p c : Thread α} {sent recv : List α} {L : List Nat}

/-- A step of the sender that moves only its program point. -/
theorem setProd {p' : Thread α} (h : Core cfg m p c sent recv L)
    (hp : ProdAt m.next m.tail L p') (howned : p'.owned = p.owned) (hlinked : p'.linked = p.linked)
    (hroom : p'.reserved → sent.length < recv.length + cfg.capacity) :
    Core cfg m p' c sent recv L :=
  { h with
    layout := by rw [howned]; exact h.layout
    held := by rw [hlinked]; exact h.held
    bound := by rw [hlinked]; exact h.bound
    room := hroom
    prod := hp }

/-- A step of the receiver that moves only its program point. -/
theorem setCons {c' : Thread α} (h : Core cfg m p c sent recv L) (hc : ConsAt m.next m.head c')
    (howned : c'.owned = c.owned) (htaken : c'.taken = c.taken) : Core cfg m p c' sent recv L :=
  { h with
    layout := by rw [howned]; exact h.layout
    held := by rw [htaken]; exact h.held
    cons := hc }

theorem head_mem (h : Core cfg m p c sent recv L) : m.head ∈ L := by
  obtain ⟨R, rfl, -⟩ := h.chain.eq_cons
  exact List.mem_cons_self _ _

variable {v : α}

/-- The link CAS succeeds: `node` joins the end of `L`. -/
theorem linkNext {node : Nat} (h : Core cfg m (.send (.linkNext v node m.tail)) c sent recv L) :
    Core cfg { m with next := Function.update m.next m.tail (some node) }
      (.send (.swingTail v node m.tail)) c sent recv (L ++ [node]) := by
  obtain ⟨⟨hn, hnn⟩, ⟨ht, hnull⟩, -⟩ := h.prod
  have htn : m.tail ≠ node := fun e => hn (e ▸ ht)
  obtain ⟨R, hL, -⟩ := h.chain.eq_cons
  have hheld : L.tail.length + c.taken + recv.length = sent.length := h.held
  refine { h with
    chain := h.chain.snoc ht hnull hn hnn
    layout := by
      show MemoryPool.Layout _ _ (L ++ [node] ++ [] ++ c.owned)
      rw [List.append_nil]
      exact h.layout
    held := by
      show (L ++ [node]).tail.length + c.taken + recv.length = sent.length + 1
      rw [hL, List.cons_append, List.tail_cons, List.length_append, List.length_singleton]
      rw [hL, List.tail_cons] at hheld
      omega
    bound := h.room trivial
    room := False.elim
    prod := ⟨List.mem_append_right _ (List.mem_singleton_self _),
      (Function.update_noteq (Ne.symm htn) _ _).trans hnn, rfl, Function.update_same _ _ _⟩
    cons := h.cons.mono fun y e => (Function.update_noteq ?_ _ _).trans e }
  rintro hht
  rw [hht, hnull] at e
  cases e

/-- The `tail_` CAS after the link: only the sender writes `tail_`, so it succeeds. -/
theorem swingTail {node : Nat} (h : Core cfg m (.send (.swingTail v node m.tail)) c sent recv L) :
    Core cfg { m with tail := node } (.send (.addSize v)) c sent recv L :=
  { h with prod := ⟨h.prod.1, h.prod.2.1⟩ }

theorem addSize (h : Core cfg m (.send (.addSize v)) c sent recv L) :
    Core cfg { m with size := (m.size + 1) % 2 ^ 64 } .idle c (sent ++ [v]) recv L := by
  have hheld : L.tail.length + c.taken + recv.length = sent.length + 1 := h.held
  have hbound : sent.length + 1 ≤ recv.length + cfg.capacity := h.bound
  have hmod := h.size_mod
  exact { h with
    held := by rw [List.length_append, List.length_singleton]; exact hheld
    bound := by rw [List.length_append, List.length_singleton]; exact hbound
    size_mod := by
      show ((m.size + 1) % 2 ^ 64 + recv.length) % 2 ^ 64 = (sent ++ [v]).length % 2 ^ 64
      rw [List.length_append, List.length_singleton]
      omega
    size_lt := Nat.mod_lt _ (Nat.two_pow_pos _)
    room := False.elim
    prod := h.prod }

/-! ### Steps of the receiver -/

/-- The `head_` CAS succeeds: the dummy node leaves `L`. -/
theorem casHead {head n : Nat} (h : Core cfg m p (.recv (.casHead head n v)) sent recv L) :
    ∃ R, L = m.head :: R ∧
      Core cfg { m with head := n } p (.recv (.free head v)) sent recv R := by
  obtain ⟨rfl, hnx⟩ := h.cons
  obtain ⟨R, rfl, hR⟩ := h.chain.eq_cons
  rw [hnx] at hR
  obtain ⟨R', rfl, -⟩ := hR.eq_cons
  have hheld : R'.length + 1 + 0 + recv.length = sent.length + p.linked := h.held
  refine ⟨_, rfl, { h with
    chain := hR
    layout := h.layout.perm ?_
    held := by
      show R'.length + 1 + recv.length = sent.length + p.linked
      omega
    prod := h.prod.dropHead (by rw [hnx]; exact Option.some_ne_none _)
    cons := trivial }⟩
  show ((m.head :: n :: R') ++ p.owned ++ []).Perm ((n :: R') ++ p.owned ++ [m.head])
  rw [List.append_nil]
  exact (List.perm_append_singleton _ _).symm

/-- `pool_.deallocate(head)`: the old dummy node goes back to the pool. -/
theorem free {head : Nat} (h : Core cfg m p (.recv (.free head v)) sent recv L) :
    Core cfg { m with pool := m.pool.deallocate (some head) } p (.recv (.subSize v)) sent recv L :=
  { h with
    layout := by
      show MemoryPool.Layout _ _ (L ++ p.owned ++ [])
      rw [List.append_nil]
      exact (h.layout : MemoryPool.Layout _ _ (L ++ p.owned ++ [head])).deallocate_last
    cons := trivial }

theorem subSize (h : Core cfg m p (.recv (.subSize v)) sent recv L) :
    Core cfg { m with size := (m.size + (2 ^ 64 - 1)) % 2 ^ 64 } p .idle sent (recv ++ [v]) L := by
  have hheld : L.tail.length + 1 + recv.length = sent.length + p.linked := h.held
  have hmod := h.size_mod
  have hbound := h.bound
  exact { h with
    held := by
      show L.tail.length + 0 + (recv ++ [v]).length = sent.length + p.linked
      rw [List.length_append, List.length_singleton]
      omega
    bound := by rw [List.length_append, List.length_singleton]; omega
    size_mod := by
      show ((m.size + (2 ^ 64 - 1)) % 2 ^ 64 + (recv ++ [v]).length) % 2 ^ 64 = _
      rw [List.length_append, List.length_singleton]
      omega
    size_lt := Nat.mod_lt _ (Nat.two_pow_pos _)
    room := fun hp => by
      have := h.room hp
      rw [List.length_append, List.length_singleton]
      omega
    cons := trivial }

theorem allocate (h : Core cfg m (.send (.allocate v)) c sent recv L) :
    Core cfg (Mem.constructWith { m with pool := (m.pool.allocateBlock cfg.blocks).2 }
      (m.pool.allocateBlock cfg.blocks).1 v)
      (.send (.loadTail v (m.pool.allocateBlock cfg.blocks).1)) c sent recv L := by
  have h0 : MemoryPool.Layout cfg.blocks m.pool (L ++ [] ++ c.owned) := h.layout
  rw [List.append_nil] at h0
  obtain ⟨hb, hl⟩ := h0.allocate_between cfg.blocks_pos
  have hne : ∀ x ∈ L, x ≠ (m.pool.allocateBlock cfg.blocks).1 := fun x hx e =>
    hb (List.mem_append_left _ (e ▸ hx))
  obtain ⟨ht, hnull⟩ : TailLast m.next m.tail L := h.prod
  exact { h with
    chain := h.chain.congr fun x hx => Function.update_noteq (hne x hx) _ _
    layout := hl
    prod := ⟨⟨fun hL => hb (List.mem_append_left _ hL), Function.update_same _ _ _⟩, ht,
      (Function.update_noteq (hne _ ht) _ _).trans hnull⟩
    cons := h.cons.mono fun _ e => (Function.update_noteq (hne _ h.head_mem) _ _).trans e }

/-- One step of the sender keeps the invariant. -/
theorem step_send [Inhabited α] {pc : Send α} (h : Core cfg m (.send pc) c sent recv L)
    (sp : Bool) :
    ∃ L', Core cfg (sendStep cfg sp m pc).1 (sendStep cfg sp m pc).2.1 c
      (sent ++ (sendStep cfg sp m pc).2.2.toList) recv L' := by
  cases pc with
  | checkSize v =>
    simp only [sendStep]
    split <;> simp only [Option.toList, List.append_nil]
    · exact ⟨L, h.setProd h.prod rfl rfl False.elim⟩
    · have hheld : L.tail.length + c.taken + recv.length = sent.length := h.held
      have hbound : sent.length ≤ recv.length + cfg.capacity := h.bound
      have := h.size_mod
      have := h.size_lt
      have := cfg.capacity_lt
      exact ⟨L, h.setProd h.prod rfl rfl fun _ => by omega⟩
  | allocate v =>
    exact ⟨L, by simpa only [sendStep, Option.toList, List.append_nil] using h.allocate⟩
  | loadTail v node =>
    simp only [sendStep, Option.toList, List.append_nil]
    exact ⟨L, h.setProd ⟨h.prod.1, h.prod.2, rfl⟩ rfl rfl fun _ => h.room trivial⟩
  | loadNext v node tail =>
    obtain ⟨hf, hl, rfl⟩ := h.prod
    simp only [sendStep, Option.toList, List.append_nil]
    exact ⟨L, h.setProd ⟨hf, hl, rfl, hl.2⟩ rfl rfl fun _ => h.room trivial⟩
  | checkTail v node tail nx =>
    obtain ⟨hf, hl, rfl, rfl⟩ := h.prod
    simp only [sendStep, eq_self_iff_true, if_true, Option.toList, List.append_nil]
    exact ⟨L, h.setProd ⟨hf, hl, rfl⟩ rfl rfl fun _ => h.room trivial⟩
  | linkNext v node tail =>
    obtain ⟨hf, hl, rfl⟩ := h.prod
    simp only [sendStep]
    split <;> simp only [Option.toList, List.append_nil]
    · exact ⟨_, h.linkNext⟩
    · exact ⟨L, h.setProd ⟨hf, hl⟩ rfl rfl fun _ => h.room trivial⟩
  | helpTail => exact h.prod.elim
  | swingTail v node tail =>
    obtain ⟨-, -, rfl, -⟩ := h.prod
    simp only [sendStep, eq_self_iff_true, if_true, Option.toList, List.append_nil]
    exact ⟨L, h.swingTail⟩
  | addSize v => exact ⟨L, h.addSize⟩

variable (moved : α → α)

/-- One step of the receiver keeps the invariant. -/
theorem step_recv {pc : Recv α} (h : Core cfg m p (.recv pc) sent recv L) (sp : Bool) :
    ∃ L', Core cfg (recvStep moved sp m pc).1 p (recvStep moved sp m pc).2.1 sent
      (recv ++ (recvStep moved sp m pc).2.2.toList) L' := by
  cases pc with
  | loadHead =>
    simp only [recvStep, Option.toList, List.append_nil]
    exact ⟨L, h.setCons rfl rfl rfl⟩
  | loadNext head =>
    simp only [recvStep, Option.toList, List.append_nil]
    exact ⟨L, h.setCons ⟨h.cons, fun _ e => e⟩ rfl rfl⟩
  | checkHead head nx =>
    obtain ⟨hh, hs⟩ := h.cons
    cases nx with
    | none =>
      simp only [recvStep, if_pos hh, Option.toList, List.append_nil]
      exact ⟨L, h.setCons trivial rfl rfl⟩
    | some n =>
      simp only [recvStep, if_pos hh, Option.toList, List.append_nil]
      exact ⟨L, h.setCons ⟨hh, hs n rfl⟩ rfl rfl⟩
  | moveData head n =>
    simp only [recvStep, Option.toList, List.append_nil]
    exact ⟨L, { h with cons := h.cons }⟩
  | casHead head n v =>
    simp only [recvStep]
    split <;> simp only [Option.toList, List.append_nil]
    · obtain ⟨R, -, hR⟩ := h.casHead
      exact ⟨R, hR⟩
    · exact ⟨L, h.setCons trivial rfl rfl⟩
  | free head v =>
    exact ⟨L, by simpa only [recvStep, Option.toList, List.append_nil] using h.free⟩
  | subSize v => exact ⟨L, h.subSize⟩

end Core

/-! ### Runs with one sender and one receiver -/

/-- Thread `0` is the sender and thread `1` the receiver: no other thread calls an
operation. -/
def Act.Spsc : Act α → Prop
  | .send t _ => t = 0
  | .receive t => t = 1
  | .step _ _ => True

instance (a : Act α) : Decidable a.Spsc :=
  match a with
  | .send t _ => inferInstanceAs (Decidable (t = 0))
  | .receive t => inferInstanceAs (Decidable (t = 1))
  | .step _ _ => inferInstanceAs (Decidable True)

/-- Thread `t` of a two-thread system. -/
theorem thread_pair (s : Sys α) {p c : Thread α} (h : s.threads = [p, c]) (t : Nat) :
    s.thread t = if t = 0 then p else if t = 1 then c else .idle := by
  rw [Sys.thread, h, getD_pair]

section Runs

variable [Inhabited α] (cfg : Config) (moved : α → α)

/-- States reached from a fresh channel with two threads, the sender and the receiver. -/
inductive SpscReachable : Sys α → Prop
  | init : SpscReachable (Sys.init cfg 2)
  | step {s : Sys α} : SpscReachable s → (a : Act α) → a.Spsc →
      SpscReachable (s.act cfg moved a)

/-- The two threads satisfy `Core` against some list of nodes. -/
def Inv (s : Sys α) : Prop :=
  ∃ p c L, s.threads = [p, c] ∧ Core cfg s.mem p c s.sent s.received L

variable {cfg moved}

theorem SpscReachable.reachable {s : Sys α} (h : SpscReachable cfg moved s) :
    Sys.Reachable cfg moved 2 s := by
  induction h with
  | init => exact .init
  | step _ a _ ih => exact ih.step a

theorem inv_init : Inv cfg (Sys.init cfg 2 : Sys α) := by
  have hl := (MemoryPool.Layout.empty cfg.blocks).allocate cfg.blocks_pos
  have hnull : (Sys.init cfg 2 : Sys α).mem.next (MemoryPool.empty.allocateBlock cfg.blocks).1 =
      none := by
    simp only [Sys.init, Mem.construct_next, Function.update_same]
  refine ⟨.idle, .idle, [(MemoryPool.empty.allocateBlock cfg.blocks).1], rfl,
    { chain := .link (hnull ▸ .null)
      layout := hl
      held := rfl
      bound := Nat.zero_le _
      size_mod := rfl
      size_lt := Nat.two_pow_pos _
      room := False.elim
      prod := ⟨List.mem_singleton_self _, hnull⟩
      cons := trivial }⟩

theorem Inv.act {s : Sys α} (h : Inv cfg s) {a : Act α} (ha : a.Spsc) :
    Inv cfg (s.act cfg moved a) := by
  obtain ⟨p, c, L, hth, hc⟩ := h
  have hthr := thread_pair s hth
  cases a with
  | send t v =>
    cases (ha : t = 0)
    show Inv cfg (s.start 0 _)
    unfold Sys.start
    rw [hthr, if_pos rfl]
    cases p with
    | idle =>
      exact ⟨.send (.checkSize v), c, L, by rw [hth]; rfl,
        hc.setProd hc.prod rfl rfl False.elim⟩
    | _ => exact ⟨_, c, L, hth, hc⟩
  | receive t =>
    cases (ha : t = 1)
    show Inv cfg (s.start 1 _)
    unfold Sys.start
    rw [hthr, if_neg (by decide), if_pos rfl]
    cases c with
    | idle => exact ⟨p, .recv .loadHead, L, by rw [hth]; rfl, hc.setCons trivial rfl rfl⟩
    | _ => exact ⟨p, _, L, hth, hc⟩
  | step t sp =>
    show Inv cfg (s.exec cfg moved t sp)
    unfold Sys.exec
    rw [hthr]
    by_cases h0 : t = 0
    · subst h0
      rw [if_pos rfl]
      cases p with
      | send pc =>
        obtain ⟨L', hL'⟩ := hc.step_send sp
        exact ⟨_, c, L', by rw [hth]; rfl, hL'⟩
      | recv => exact hc.prod.elim
      | idle => exact ⟨_, c, L, hth, hc⟩
    by_cases h1 : t = 1
    · subst h1
      rw [if_neg (by decide), if_pos rfl]
      cases c with
      | recv pc =>
        obtain ⟨L', hL'⟩ := hc.step_recv moved sp
        exact ⟨p, _, L', by rw [hth]; rfl, hL'⟩
      | send => exact hc.cons.elim
      | idle => exact ⟨p, _, L, hth, hc⟩
    rw [if_neg h0, if_neg h1]
    exact ⟨p, c, L, hth, hc⟩

theorem SpscReachable.run {s : Sys α} (h : SpscReachable cfg moved s) (acts : List (Act α))
    (ha : ∀ a ∈ acts, a.Spsc) : SpscReachable cfg moved (Sys.run cfg moved s acts) := by
  induction acts generalizing s with
  | nil => exact h
  | cons a acts ih =>
    exact ih (h.step a (ha a (List.mem_cons_self _ _))) fun b hb => ha b (List.mem_cons_of_mem _ hb)

/-- The invariant holds in every state of a run with one sender and one receiver. -/
theorem SpscReachable.inv {s : Sys α} (h : SpscReachable cfg moved s) : Inv cfg s := by
  induction h with
  | init => exact inv_init
  | step _ a ha ih => exact ih.act ha

/-- With one sender and one receiver, at most `capacity` nodes are ever linked after
`head_`. -/
theorem spsc_held_le {s : Sys α} (h : SpscReachable cfg moved s) :
    ∃ R, Chain s.mem.next (s.mem.next s.mem.head) R ∧ R.length ≤ cfg.capacity := by
  obtain ⟨p, c, L, -, hc⟩ := h.inv
  obtain ⟨R, rfl, hR⟩ := hc.chain.eq_cons
  have := hc.held
  have := hc.bound
  exact ⟨R, hR, by simp only [List.tail_cons] at *; omega⟩

end Runs

/-- The sender links `1` after the dummy `H` and pauses before its `tail_` CAS; the
receiver takes `1` and frees `H`, which `tail_` still names; the sender's CAS moves
`tail_` on and it finishes. -/
def spscTrace : List (Act Nat) :=
  (.send 0 1 :: steps 0 6) ++ (.receive 1 :: steps 1 7) ++ steps 0 2

/-- The state `spscTrace` reaches from a fresh channel of `int` with two threads. -/
def spscRun : Sys Nat := Sys.run Config.default id (Sys.init Config.default 2) spscTrace

theorem spscRun_reachable : SpscReachable Config.default id spscRun :=
  SpscReachable.init.run _ (by decide)

end MPMCChannel

open Memory

/-- With one producer and one consumer neither the queue nor the channel ever holds
more than its capacity, in any state of any run. -/
theorem spsc_capacity_bound {α : Type} [Inhabited α] (cfg : Config) (moved : α → α)
    {sq : MPMCQueue.Sys α} {sc : MPMCChannel.Sys α} (hq : MPMCQueue.SpscReachable cfg sq)
    (hc : MPMCChannel.SpscReachable cfg moved sc) :
    (∃ R, Chain sq.mem.next (sq.mem.next sq.mem.head) R ∧ R.length ≤ cfg.capacity) ∧
      ∃ R, Chain sc.mem.next (sc.mem.next sc.mem.head) R ∧ R.length ≤ cfg.capacity :=
  ⟨MPMCQueue.spsc_held_le hq, MPMCChannel.spsc_held_le hc⟩

theorem spsc_capacity_bound_spscRun :
    MPMCQueue.SpscReachable Config.default MPMCQueue.spscRun ∧
      MPMCChannel.SpscReachable Config.default id MPMCChannel.spscRun ∧
      ((∃ R, Chain MPMCQueue.spscRun.mem.next
          (MPMCQueue.spscRun.mem.next MPMCQueue.spscRun.mem.head) R ∧
          R.length ≤ Config.default.capacity) ∧
        ∃ R, Chain MPMCChannel.spscRun.mem.next
          (MPMCChannel.spscRun.mem.next MPMCChannel.spscRun.mem.head) R ∧
          R.length ≤ Config.default.capacity) :=
  ⟨MPMCQueue.spscRun_reachable, MPMCChannel.spscRun_reachable,
    spsc_capacity_bound Config.default id MPMCQueue.spscRun_reachable
      MPMCChannel.spscRun_reachable⟩

end Lockfree
end AsyncToolkit
