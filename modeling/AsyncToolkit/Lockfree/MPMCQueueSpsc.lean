import AsyncToolkit.Lockfree.MPMCQueue

/-!
# async_toolkit: the MPMC queue with one producer and one consumer

With two consumers `head_` suffers ABA through the LIFO pool, and with two
producers `tail_` can be swung back over a linked node (the runs of
`MPMCQueue`).  Neither happens when one thread, `0`, only enqueues and one
thread, `1`, only dequeues, whatever the interleaving of their atomic steps and
the outcome of each weak CAS.

**Invariant.**  `Core` relates the memory to the list `L` of nodes reachable from
`head_`: `L` is a `nullptr`-terminated chain from `head_` that contains `tail_`;
the pool's live blocks are `L` and the blocks the two threads hold; the values
dequeued, then the value the consumer has unlinked, then the values of `L` after
the dummy node, are the values enqueued followed by the value the producer has
linked; and `size_` counts the enqueues and dequeues that returned.  `EnqAt` and
`DeqAt` are what the locals of each program point satisfy.  Each side's facts are
stable under the other side's steps: the producer only writes links that are
`nullptr` and blocks outside `L`, and only moves `tail_` forward; the consumer
writes no node and only drops the first node of `L`.

**Results.**  `Core` holds in every state of such a run (`SpscReachable.inv`):
no thread dereferences `nullptr`, the values dequeued are a prefix of the values
enqueued, and the values held are at most the capacity.
-/

namespace AsyncToolkit
namespace Lockfree
namespace MPMCQueue

open Memory

variable {α : Type}

/-! ### What each thread holds -/

/-- The node an enqueue holds between `allocate` and the link that publishes it. -/
def Enq.owned : Enq α → List Nat
  | .setData _ n | .clearNext _ n | .loadTail _ n | .loadNext _ n _ | .checkTail _ n _ _
  | .linkNext _ n _ | .helpTail _ n _ _ | .reloadTail _ n => [n]
  | _ => []

/-- The value an enqueue has linked and `size_` does not count yet. -/
def Enq.linked : Enq α → List α
  | .swingTail v _ _ | .addSize v => [v]
  | _ => []

/-- The old head a dequeue has unlinked and not yet freed. -/
def Deq.owned : Deq α → List Nat
  | .free h _ => [h]
  | _ => []

/-- The value a dequeue has unlinked and not yet returned. -/
def Deq.unlinked : Deq α → List α
  | .free _ v | .subSize v => [v]
  | _ => []

namespace Thread

/-- The blocks a thread holds outside the queue. -/
def owned : Thread α → List Nat
  | .enq pc => pc.owned
  | .deq pc => pc.owned
  | _ => []

/-- The value a thread has moved into or out of the queue without `size_` counting it. -/
def inFlight : Thread α → List α
  | .enq pc => pc.linked
  | .deq pc => pc.unlinked
  | _ => []

/-- The thread is past the `size_` check of its operation. -/
def checked : Thread α → Prop
  | .enq (.checkSize _) | .deq .checkSize | .idle | .crashed => False
  | _ => True

@[simp] theorem owned_idle : (idle : Thread α).owned = [] := rfl

@[simp] theorem inFlight_idle : (idle : Thread α).inFlight = [] := rfl

end Thread

/-! ### The facts of each program point -/

section Facts

variable (next : Nat → Option Nat) (data : Nat → α) (L : List Nat)

/-- The producer's node: outside the queue, holding `v`, with a null link. -/
def Fresh (v : α) (node : Nat) : Prop := node ∉ L ∧ data node = v ∧ next node = none

/-- What the locals of `try_enqueue` satisfy; it reads only the nodes. -/
def EnqAt : Enq α → Prop
  | .checkSize _ | .allocate _ | .addSize _ => True
  | .setData _ node => node ∉ L
  | .clearNext v node => node ∉ L ∧ data node = v
  | .loadTail v node | .reloadTail v node => Fresh next data L v node
  | .loadNext v node tail | .linkNext v node tail =>
    Fresh next data L v node ∧ (tail ∈ L ∨ next tail ≠ none)
  | .checkTail v node tail nx =>
    Fresh next data L v node ∧ (tail ∈ L ∨ next tail ≠ none) ∧
      ∀ n, nx = some n → next tail = some n
  | .helpTail v node tail n => Fresh next data L v node ∧ (tail ∈ L → next tail = some n)
  | .swingTail _ node tail => node ∈ L ∧ next node = none ∧ next tail = some node

/-- The producer thread: idle or inside `try_enqueue`. -/
def ProdAt : Thread α → Prop
  | .idle => True
  | .enq pc => EnqAt next data L pc
  | _ => False

end Facts

section Facts

variable (m : Mem α) (L : List Nat)

/-- What the locals of `try_dequeue` satisfy: `head` is `head_`, and the `tail` read
before the loop is no later than `tail_`. -/
def DeqAt : Deq α → Prop
  | .checkSize | .loadHead | .free _ _ | .subSize _ => True
  | .loadTail head => head = m.head
  | .loadNext head tail => head = m.head ∧ NoLater L tail m.tail
  | .checkHead head tail nx =>
    head = m.head ∧ NoLater L tail m.tail ∧ (nx = none → tail = head) ∧
      ∀ n, nx = some n → m.next head = some n
  | .helpTail _ tail n => tail = m.head ∧ m.next tail = some n
  | .readData head tail nx =>
    head = m.head ∧ tail ≠ head ∧ NoLater L tail m.tail ∧
      ∃ n, nx = some n ∧ m.next head = some n
  | .casHead head tail n v =>
    head = m.head ∧ tail ≠ head ∧ NoLater L tail m.tail ∧ m.next head = some n ∧
      m.data n = v
  | .reloadHead tail => NoLater L tail m.tail

/-- The consumer thread: idle or inside `try_dequeue`. -/
def ConsAt : Thread α → Prop
  | .idle => True
  | .deq pc => DeqAt m L pc
  | _ => False

end Facts

/-- The invariant of the queue with producer `p` and consumer `c`, the values `enq`
and `deq` of the calls that returned `true`, and the nodes `L` reachable from
`head_`. -/
structure Core (cfg : Config) (m : Mem α) (p c : Thread α) (enq deq : List α)
    (L : List Nat) : Prop where
  chain : Chain m.next (some m.head) L
  tail_mem : m.tail ∈ L
  layout : MemoryPool.Layout cfg.blocks m.pool (L ++ p.owned ++ c.owned)
  values : deq ++ c.inFlight ++ L.tail.map m.data = enq ++ p.inFlight
  size_eq : m.size + deq.length = enq.length
  size_le : m.size ≤ cfg.capacity
  prod_size : p.checked → m.size < cfg.capacity
  cons_size : c.checked → 0 < m.size
  prod : ProdAt m.next m.data L p
  cons : ConsAt m L c

/-! ### Each side's facts under the other side's steps -/

section Stable

variable {next : Nat → Option Nat} {data : Nat → α}

/-- The consumer unlinks the first node `a`, which has a successor. -/
theorem EnqAt.dropHead {a : Nat} {R : List Nat} {pc : Enq α}
    (h : EnqAt next data (a :: R) pc) (ha : next a ≠ none) : EnqAt next data R pc := by
  have out : ∀ {x}, x ∉ a :: R → x ∉ R := fun hx hR => hx (List.mem_cons_of_mem _ hR)
  have seen : ∀ {x}, x ∈ a :: R ∨ next x ≠ none → x ∈ R ∨ next x ≠ none := by
    rintro x (hx | hx)
    · rcases List.mem_cons.1 hx with rfl | hx
      exacts [.inr ha, .inl hx]
    · exact .inr hx
  cases pc with
  | checkSize | allocate | addSize => trivial
  | setData => exact out h
  | clearNext => exact ⟨out h.1, h.2⟩
  | loadTail | reloadTail => exact ⟨out h.1, h.2⟩
  | loadNext | linkNext => exact ⟨⟨out h.1.1, h.1.2⟩, seen h.2⟩
  | checkTail => exact ⟨⟨out h.1.1, h.1.2⟩, seen h.2.1, h.2.2⟩
  | helpTail => exact ⟨⟨out h.1.1, h.1.2⟩, fun hx => h.2 (List.mem_cons_of_mem _ hx)⟩
  | swingTail _ node =>
    obtain ⟨hn, hnull, hlink⟩ := h
    refine ⟨(List.mem_cons.1 hn).resolve_left ?_, hnull, hlink⟩
    rintro rfl
    exact ha hnull

theorem ProdAt.dropHead {a : Nat} {R : List Nat} {p : Thread α}
    (h : ProdAt next data (a :: R) p) (ha : next a ≠ none) : ProdAt next data R p := by
  cases p with
  | enq pc => exact EnqAt.dropHead h ha
  | _ => exact h

variable {m m' : Mem α} {L L' : List Nat}

/-- The consumer's facts survive a producer step that keeps `head_`, keeps every link
of `L` that is set and every value of `L`, and moves `tail_` no earlier. -/
theorem DeqAt.mono {pc : Deq α} (h : DeqAt m L pc) (hc : Chain m.next (some m.head) L)
    (hhead : m'.head = m.head)
    (hnext : ∀ x ∈ L, ∀ y, m.next x = some y → m'.next x = some y)
    (hdata : ∀ x ∈ L, m'.data x = m.data x)
    (htail : ∀ t, NoLater L t m.tail → NoLater L' t m'.tail) : DeqAt m' L' pc := by
  obtain ⟨R, rfl, -⟩ := hc.eq_cons
  have hm : m.head ∈ m.head :: R := List.mem_cons_self _ _
  cases pc with
  | checkSize | loadHead | free | subSize => trivial
  | loadTail => exact h.trans hhead.symm
  | loadNext => exact ⟨h.1.trans hhead.symm, htail _ h.2⟩
  | checkHead =>
    obtain ⟨rfl, hn, hnone, hsome⟩ := h
    exact ⟨hhead.symm, htail _ hn, hnone, fun n e => hnext _ hm _ (hsome n e)⟩
  | helpTail =>
    obtain ⟨rfl, hn⟩ := h
    exact ⟨hhead.symm, hnext _ hm _ hn⟩
  | readData =>
    obtain ⟨rfl, hne, hn, n, e, hnx⟩ := h
    exact ⟨hhead.symm, hne, htail _ hn, n, e, hnext _ hm _ hnx⟩
  | casHead =>
    obtain ⟨rfl, hne, hn, hnx, hd⟩ := h
    exact ⟨hhead.symm, hne, htail _ hn, hnext _ hm _ hnx,
      (hdata _ (hc.mem_of_next hm hnx)).trans hd⟩
  | reloadHead => exact htail _ h

theorem ConsAt.mono {c : Thread α} (h : ConsAt m L c) (hc : Chain m.next (some m.head) L)
    (hhead : m'.head = m.head)
    (hnext : ∀ x ∈ L, ∀ y, m.next x = some y → m'.next x = some y)
    (hdata : ∀ x ∈ L, m'.data x = m.data x)
    (htail : ∀ t, NoLater L t m.tail → NoLater L' t m'.tail) : ConsAt m' L' c := by
  cases c with
  | deq pc => exact DeqAt.mono h hc hhead hnext hdata htail
  | _ => exact h

end Stable

/-! ### Steps of the producer -/

namespace Core

variable {cfg : Config} {m : Mem α} {p c : Thread α} {enq deq : List α} {L : List Nat}

theorem head_mem (h : Core cfg m p c enq deq L) : m.head ∈ L := by
  obtain ⟨R, rfl, -⟩ := h.chain.eq_cons
  exact List.mem_cons_self _ _

/-- A step of the producer that moves only its program point. -/
theorem setProd {p' : Thread α} (h : Core cfg m p c enq deq L) (hp : ProdAt m.next m.data L p')
    (howned : p'.owned = p.owned) (hin : p'.inFlight = p.inFlight)
    (hsize : p'.checked → m.size < cfg.capacity) : Core cfg m p' c enq deq L :=
  { h with
    layout := by rw [howned]; exact h.layout
    values := by rw [hin]; exact h.values
    prod_size := hsize
    prod := hp }

/-- A step of the consumer that moves only its program point. -/
theorem setCons {c' : Thread α} (h : Core cfg m p c enq deq L) (hc : ConsAt m L c')
    (howned : c'.owned = c.owned) (hin : c'.inFlight = c.inFlight)
    (hsize : c'.checked → 0 < m.size) : Core cfg m p c' enq deq L :=
  { h with
    layout := by rw [howned]; exact h.layout
    values := by rw [hin]; exact h.values
    cons_size := hsize
    cons := hc }

/-- The values held survive a write outside `L`. -/
theorem held_eq {m' : Mem α} (h : Core cfg m p c enq deq L)
    (hdata : ∀ x ∈ L, m'.data x = m.data x) :
    deq ++ c.inFlight ++ L.tail.map m'.data = enq ++ p.inFlight := by
  rw [← h.values, List.map_congr_left fun x hx => hdata x (List.mem_of_mem_tail hx)]

/-- The producer's writes to its own node, outside `L`, keep the consumer's facts. -/
theorem cons_of_out (h : Core cfg m p c enq deq L) {m' : Mem α} (hhead : m'.head = m.head)
    (htail : m'.tail = m.tail) (hnext : ∀ x ∈ L, m'.next x = m.next x)
    (hdata : ∀ x ∈ L, m'.data x = m.data x) : ConsAt m' L c :=
  h.cons.mono h.chain hhead (fun x hx _ e => (hnext x hx).trans e) hdata
    fun _ ht => htail ▸ ht

variable {v : α}

theorem setData {node : Nat} (h : Core cfg m (.enq (.setData v node)) c enq deq L) :
    Core cfg { m with data := Function.update m.data node v } (.enq (.clearNext v node)) c enq
      deq L := by
  have hn : node ∉ L := h.prod
  have hne : ∀ x ∈ L, x ≠ node := fun x hx e => hn (e ▸ hx)
  exact { h with
    values := h.held_eq fun x hx => Function.update_noteq (hne x hx) _ _
    prod := ⟨hn, Function.update_same _ _ _⟩
    cons := h.cons_of_out rfl rfl (fun _ _ => rfl)
      fun x hx => Function.update_noteq (hne x hx) _ _ }

theorem clearNext {node : Nat} (h : Core cfg m (.enq (.clearNext v node)) c enq deq L) :
    Core cfg { m with next := Function.update m.next node none } (.enq (.loadTail v node)) c enq
      deq L := by
  obtain ⟨hn, hd⟩ := h.prod
  have hne : ∀ x ∈ L, x ≠ node := fun x hx e => hn (e ▸ hx)
  exact { h with
    chain := h.chain.congr fun x hx => Function.update_noteq (hne x hx) _ _
    prod := ⟨hn, hd, Function.update_same _ _ _⟩
    cons := h.cons_of_out rfl rfl (fun x hx => Function.update_noteq (hne x hx) _ _)
      fun _ _ => rfl }

/-- The link CAS succeeds: `node` joins the end of `L` and its value is linked. -/
theorem linkNext {node tail : Nat} (h : Core cfg m (.enq (.linkNext v node tail)) c enq deq L)
    (hnull : m.next tail = none) :
    Core cfg { m with next := Function.update m.next tail (some node) }
      (.enq (.swingTail v node tail)) c enq deq (L ++ [node]) := by
  obtain ⟨⟨hn, hd, hnn⟩, hseen⟩ := h.prod
  have ht : tail ∈ L := hseen.resolve_right (not_not.2 hnull)
  have htn : tail ≠ node := fun e => hn (e ▸ ht)
  refine { h with
    chain := h.chain.snoc ht hnull hn hnn
    tail_mem := List.mem_append_left _ h.tail_mem
    layout := by
      show MemoryPool.Layout _ _ (L ++ [node] ++ [] ++ c.owned)
      rw [List.append_nil]
      exact h.layout
    values := ?_
    prod := ⟨List.mem_append_right _ (List.mem_singleton_self _),
      (Function.update_noteq (Ne.symm htn) _ _).trans hnn, Function.update_same _ _ _⟩
    cons := h.cons.mono h.chain rfl (fun x _ _ e => ?_) (fun _ _ => rfl) fun _ hl => hl.append _ }
  · obtain ⟨R, rfl, -⟩ := h.chain.eq_cons
    have hv : deq ++ c.inFlight ++ R.map m.data = enq ++ [] := h.values
    show deq ++ c.inFlight ++ (R ++ [node]).map m.data = enq ++ [v]
    rw [List.append_nil] at hv
    rw [List.map_append, ← List.append_assoc, hv, List.map_singleton, hd]
  · refine (Function.update_noteq ?_ _ _).trans e
    rintro rfl
    rw [hnull] at e
    cases e

/-- The `tail_` CAS of the loop succeeds: `tail_` moves to the successor it had. -/
theorem helpTail {node tail n : Nat} (h : Core cfg m (.enq (.helpTail v node tail n)) c enq deq L)
    (ht : m.tail = tail) :
    Core cfg { m with tail := n } (.enq (.reloadTail v node)) c enq deq L := by
  obtain ⟨hf, hlink⟩ := h.prod
  have hnext : m.next m.tail = some n := ht ▸ hlink (ht ▸ h.tail_mem)
  exact { h with
    tail_mem := h.chain.mem_of_next h.tail_mem hnext
    prod := hf
    cons := h.cons.mono h.chain rfl (fun _ _ _ e => e) (fun _ _ => rfl)
      fun _ hl => hl.succ h.chain hnext }

/-- The `tail_` CAS after the loop succeeds: `tail_` moves to the new node. -/
theorem swingTail {node tail : Nat} (h : Core cfg m (.enq (.swingTail v node tail)) c enq deq L)
    (ht : m.tail = tail) : Core cfg { m with tail := node } (.enq (.addSize v)) c enq deq L := by
  obtain ⟨hn, -, hlink⟩ := h.prod
  have hnext : m.next m.tail = some node := ht ▸ hlink
  exact { h with
    tail_mem := hn
    prod := trivial
    cons := h.cons.mono h.chain rfl (fun _ _ _ e => e) (fun _ _ => rfl)
      fun _ hl => hl.succ h.chain hnext }

theorem addSize (h : Core cfg m (.enq (.addSize v)) c enq deq L) :
    Core cfg { m with size := (m.size + 1) % 2 ^ 64 } .idle c (enq ++ [v]) deq L := by
  have hlt : m.size < cfg.capacity := h.prod_size trivial
  have hsize : (m.size + 1) % 2 ^ 64 = m.size + 1 :=
    Nat.mod_eq_of_lt (lt_of_le_of_lt hlt cfg.capacity_lt)
  have heq := h.size_eq
  exact { h with
    values := by rw [h.values]; exact (List.append_nil _).symm
    size_eq := by
      show (m.size + 1) % 2 ^ 64 + deq.length = (enq ++ [v]).length
      rw [hsize, List.length_append, List.length_singleton]
      omega
    size_le := by show (m.size + 1) % 2 ^ 64 ≤ _; rw [hsize]; exact hlt
    prod_size := False.elim
    cons_size := fun _ => by show 0 < (m.size + 1) % 2 ^ 64; rw [hsize]; exact Nat.succ_pos _
    prod := trivial
    cons := h.cons.mono h.chain rfl (fun _ _ _ e => e) (fun _ _ => rfl) fun _ hl => hl }

/-! ### Steps of the consumer -/

/-- The `tail_` CAS of the dequeue loop succeeds: `tail_` leaves the dummy node. -/
theorem helpTailDeq {tail n : Nat} (h : Core cfg m p (.deq (.helpTail head tail n)) enq deq L)
    (ht : m.tail = tail) : Core cfg { m with tail := n } p (.deq (.reloadHead tail)) enq deq L := by
  obtain ⟨rfl, hnx⟩ := h.cons
  obtain ⟨R, rfl, -⟩ := h.chain.eq_cons
  have hn := h.chain.mem_of_next h.head_mem hnx
  exact { h with tail_mem := hn, cons := NoLater.head hn }

/-- The `head_` CAS succeeds: the dummy node leaves `L` and its successor's value is
unlinked. -/
theorem casHead {head tail n : Nat} (h : Core cfg m p (.deq (.casHead head tail n v)) enq deq L) :
    ∃ R, L = m.head :: R ∧
      Core cfg { m with head := n } p (.deq (.free head v)) enq deq R := by
  obtain ⟨rfl, hne, hn, hnx, hd⟩ := h.cons
  obtain ⟨R, rfl, hR⟩ := h.chain.eq_cons
  rw [hnx] at hR
  obtain ⟨R', rfl, -⟩ := hR.eq_cons
  refine ⟨_, rfl, { h with
    chain := hR
    tail_mem := (hn.tail hne).mem_right
    layout := h.layout.perm ?_
    values := ?_
    prod := h.prod.dropHead (by rw [hnx]; exact Option.some_ne_none _)
    cons := trivial }⟩
  · show ((m.head :: n :: R') ++ p.owned ++ []).Perm ((n :: R') ++ p.owned ++ [m.head])
    rw [List.append_nil]
    exact (List.perm_append_singleton _ _).symm
  · calc deq ++ [v] ++ R'.map m.data = deq ++ [] ++ (n :: R').map m.data := by simp [hd]
      _ = enq ++ p.inFlight := h.values

/-- `pool_.deallocate(head)`: the old dummy node goes back to the pool. -/
theorem free {head : Nat} (h : Core cfg m p (.deq (.free head v)) enq deq L) :
    Core cfg { m with pool := m.pool.deallocate (some head) } p (.deq (.subSize v)) enq deq L :=
  { h with
    layout := by
      show MemoryPool.Layout _ _ (L ++ p.owned ++ [])
      rw [List.append_nil]
      exact (h.layout : MemoryPool.Layout _ _ (L ++ p.owned ++ [head])).deallocate_last
    cons := trivial }

theorem subSize (h : Core cfg m p (.deq (.subSize v)) enq deq L) :
    Core cfg { m with size := (m.size + (2 ^ 64 - 1)) % 2 ^ 64 } p .idle enq (deq ++ [v]) L := by
  have hpos : 0 < m.size := h.cons_size trivial
  have hsize : (m.size + (2 ^ 64 - 1)) % 2 ^ 64 = m.size - 1 := by
    have := cfg.capacity_lt
    have := h.size_le
    omega
  have heq := h.size_eq
  exact { h with
    values := by
      show deq ++ [v] ++ [] ++ L.tail.map m.data = enq ++ p.inFlight
      rw [List.append_nil]
      exact h.values
    size_eq := by
      show (m.size + (2 ^ 64 - 1)) % 2 ^ 64 + (deq ++ [v]).length = enq.length
      rw [hsize, List.length_append, List.length_singleton]
      omega
    size_le := by
      show (m.size + (2 ^ 64 - 1)) % 2 ^ 64 ≤ _
      rw [hsize]
      exact h.size_le.trans' (Nat.sub_le _ _)
    prod_size := fun hp => by
      show (m.size + (2 ^ 64 - 1)) % 2 ^ 64 < _
      rw [hsize]
      exact lt_of_le_of_lt (Nat.sub_le _ _) (h.prod_size hp)
    cons_size := False.elim
    cons := trivial }

/-- One step of the consumer keeps the invariant. -/
theorem step_deq {pc : Deq α} (h : Core cfg m p (.deq pc) enq deq L) (sp : Bool) :
    ∃ L', Core cfg (deqStep sp m pc).1 p (deqStep sp m pc).2.1 enq
      (deq ++ (deqStep sp m pc).2.2.toList) L' := by
  cases pc with
  | checkSize =>
    simp only [deqStep]
    split <;> simp only [Option.toList, List.append_nil]
    · exact ⟨L, h.setCons trivial rfl rfl False.elim⟩
    · exact ⟨L, h.setCons trivial rfl rfl fun _ => Nat.pos_of_ne_zero ‹_›⟩
  | loadHead =>
    simp only [deqStep, Option.toList, List.append_nil]
    exact ⟨L, h.setCons rfl rfl rfl fun _ => h.cons_size trivial⟩
  | loadTail head =>
    simp only [deqStep, Option.toList, List.append_nil]
    exact ⟨L, h.setCons ⟨h.cons, .refl h.tail_mem⟩ rfl rfl fun _ => h.cons_size trivial⟩
  | loadNext head tail =>
    simp only [deqStep, Option.toList, List.append_nil]
    obtain ⟨rfl, hn⟩ := h.cons
    refine ⟨L, h.setCons ⟨rfl, hn, fun hnull => ?_, fun _ e => e⟩ rfl rfl
      fun _ => h.cons_size trivial⟩
    obtain ⟨R, rfl, hR⟩ := h.chain.eq_cons
    rw [hnull] at hR
    cases hR
    exact List.mem_singleton.1 hn.mem_left
  | checkHead head tail nx =>
    obtain ⟨hh, hn, hnone, hsome⟩ := h.cons
    by_cases hht : head = tail
    · cases nx with
      | none =>
        simp only [deqStep, if_pos hh, if_pos hht, Option.toList, List.append_nil]
        exact ⟨L, h.setCons trivial rfl rfl False.elim⟩
      | some n =>
        simp only [deqStep, if_pos hh, if_pos hht, Option.toList, List.append_nil]
        exact ⟨L, h.setCons ⟨hht ▸ hh, hht ▸ hsome n rfl⟩ rfl rfl
          fun _ => h.cons_size trivial⟩
    · obtain ⟨n, rfl⟩ := Option.ne_none_iff_exists'.1 fun e => hht (hnone e).symm
      simp only [deqStep, if_pos hh, if_neg hht, Option.toList, List.append_nil]
      exact ⟨L, h.setCons ⟨hh, Ne.symm hht, hn, n, rfl, hsome n rfl⟩ rfl rfl
        fun _ => h.cons_size trivial⟩
  | helpTail head tail n =>
    simp only [deqStep]
    split <;> simp only [Option.toList, List.append_nil]
    · exact ⟨L, h.helpTailDeq (eq_of_weakCas ‹_›)⟩
    · exact ⟨L, h.setCons (.refl h.tail_mem) rfl rfl fun _ => h.cons_size trivial⟩
  | readData head tail nx =>
    obtain ⟨hh, hne, hn, n, rfl, hnx⟩ := h.cons
    simp only [deqStep, Option.toList, List.append_nil]
    exact ⟨L, h.setCons ⟨hh, hne, hn, hnx, rfl⟩ rfl rfl fun _ => h.cons_size trivial⟩
  | casHead head tail n v =>
    simp only [deqStep]
    split <;> simp only [Option.toList, List.append_nil]
    · obtain ⟨R, -, hR⟩ := h.casHead
      exact ⟨R, hR⟩
    · exact ⟨L, h.setCons h.cons.2.2.1 rfl rfl fun _ => h.cons_size trivial⟩
  | reloadHead tail =>
    simp only [deqStep, Option.toList, List.append_nil]
    exact ⟨L, h.setCons ⟨rfl, h.cons⟩ rfl rfl fun _ => h.cons_size trivial⟩
  | free head v =>
    exact ⟨L, by simpa only [deqStep, Option.toList, List.append_nil] using h.free⟩
  | subSize v => exact ⟨L, h.subSize⟩

variable [Inhabited α]

theorem allocate (h : Core cfg m (.enq (.allocate v)) c enq deq L) :
    Core cfg (({ m with pool := (m.pool.allocateBlock cfg.blocks).2 } : Mem α).construct
      (m.pool.allocateBlock cfg.blocks).1) (.enq (.setData v (m.pool.allocateBlock cfg.blocks).1))
      c enq deq L := by
  have h0 : MemoryPool.Layout cfg.blocks m.pool (L ++ [] ++ c.owned) := h.layout
  rw [List.append_nil] at h0
  obtain ⟨hb, hl⟩ := h0.allocate_between cfg.blocks_pos
  have hne : ∀ x ∈ L, x ≠ (m.pool.allocateBlock cfg.blocks).1 := fun x hx e =>
    hb (List.mem_append_left _ (e ▸ hx))
  exact { h with
    chain := h.chain.congr fun x hx => Function.update_noteq (hne x hx) _ _
    layout := hl
    values := h.held_eq fun x hx => Function.update_noteq (hne x hx) _ _
    prod := fun hL => hb (List.mem_append_left _ hL)
    cons := h.cons_of_out rfl rfl (fun x hx => Function.update_noteq (hne x hx) _ _)
      fun x hx => Function.update_noteq (hne x hx) _ _ }

/-- One step of the producer keeps the invariant. -/
theorem step_enq {pc : Enq α} (h : Core cfg m (.enq pc) c enq deq L) (sp : Bool) :
    ∃ L', Core cfg (enqStep cfg sp m pc).1 (enqStep cfg sp m pc).2.1 c
      (enq ++ (enqStep cfg sp m pc).2.2.toList) deq L' := by
  cases pc with
  | checkSize v =>
    simp only [enqStep]
    split <;> simp only [Option.toList, List.append_nil]
    · exact ⟨L, h.setProd trivial rfl rfl False.elim⟩
    · exact ⟨L, h.setProd trivial rfl rfl fun _ => by omega⟩
  | allocate v =>
    exact ⟨L, by simpa only [enqStep, Option.toList, List.append_nil] using h.allocate⟩
  | setData v node =>
    exact ⟨L, by simpa only [enqStep, Option.toList, List.append_nil] using h.setData⟩
  | clearNext v node =>
    exact ⟨L, by simpa only [enqStep, Option.toList, List.append_nil] using h.clearNext⟩
  | loadTail v node =>
    simp only [enqStep, Option.toList, List.append_nil]
    exact ⟨L, h.setProd ⟨h.prod, .inl h.tail_mem⟩ rfl rfl fun _ => h.prod_size trivial⟩
  | loadNext v node tail =>
    simp only [enqStep, Option.toList, List.append_nil]
    exact ⟨L, h.setProd ⟨h.prod.1, h.prod.2, fun _ e => e⟩ rfl rfl
      fun _ => h.prod_size trivial⟩
  | checkTail v node tail nx =>
    obtain ⟨hf, hseen, hnx⟩ := h.prod
    simp only [enqStep]
    split
    · split <;> simp only [Option.toList, List.append_nil]
      · exact ⟨L, h.setProd ⟨hf, hseen⟩ rfl rfl fun _ => h.prod_size trivial⟩
      · exact ⟨L, h.setProd ⟨hf, fun _ => hnx _ rfl⟩ rfl rfl fun _ => h.prod_size trivial⟩
    · simp only [Option.toList, List.append_nil]
      exact ⟨L, h.setProd hf rfl rfl fun _ => h.prod_size trivial⟩
  | linkNext v node tail =>
    simp only [enqStep]
    split <;> simp only [Option.toList, List.append_nil]
    · rename_i hc
      simp only [Bool.and_eq_true, Bool.not_eq_true', decide_eq_true_eq] at hc
      exact ⟨_, h.linkNext hc.2⟩
    · exact ⟨L, h.setProd h.prod.1 rfl rfl fun _ => h.prod_size trivial⟩
  | helpTail v node tail n =>
    simp only [enqStep, Option.toList, List.append_nil]
    split
    · exact ⟨L, h.helpTail (eq_of_weakCas ‹_›)⟩
    · exact ⟨L, h.setProd h.prod.1 rfl rfl fun _ => h.prod_size trivial⟩
  | reloadTail v node =>
    simp only [enqStep, Option.toList, List.append_nil]
    exact ⟨L, h.setProd ⟨h.prod, .inl h.tail_mem⟩ rfl rfl fun _ => h.prod_size trivial⟩
  | swingTail v node tail =>
    simp only [enqStep, Option.toList, List.append_nil]
    split
    · exact ⟨L, h.swingTail (eq_of_weakCas ‹_›)⟩
    · exact ⟨L, h.setProd trivial rfl rfl fun _ => h.prod_size trivial⟩
  | addSize v => exact ⟨L, h.addSize⟩

end Core

/-! ### What the invariant says about the values -/

theorem Thread.length_inFlight_le (th : Thread α) : th.inFlight.length ≤ 1 := by
  rcases th with _ | pc | pc | _ <;> try cases pc
  all_goals simp [Thread.inFlight, Enq.linked, Deq.unlinked]

theorem Thread.checked_of_inFlight {th : Thread α} (h : th.inFlight ≠ []) : th.checked := by
  rcases th with _ | pc | pc | _ <;> try cases pc
  all_goals simp_all [Thread.inFlight, Enq.linked, Deq.unlinked, Thread.checked]

namespace Core

variable {cfg : Config} {m : Mem α} {p c : Thread α} {enq deq : List α} {L : List Nat}

/-- The values dequeued are a prefix of the values enqueued. -/
theorem dequeued_prefix (h : Core cfg m p c enq deq L) : deq <+: enq := by
  have hw : deq <+: enq ++ p.inFlight := by
    rw [← h.values, List.append_assoc]
    exact List.prefix_append _ _
  refine List.prefix_of_prefix_length_le hw (List.prefix_append _ _) ?_
  have := h.size_eq
  omega

/-- The values held after the dummy node are at most the capacity. -/
theorem held_le (h : Core cfg m p c enq deq L) : L.tail.length ≤ cfg.capacity := by
  have hlen := congrArg List.length h.values
  simp only [List.length_append, List.length_map] at hlen
  have := h.size_eq
  have := h.size_le
  have := p.length_inFlight_le
  by_cases hp : p.inFlight = []
  · rw [hp, List.length_nil] at hlen
    omega
  · have := h.prod_size (Thread.checked_of_inFlight hp)
    omega

end Core

/-! ### Runs with one producer and one consumer -/

/-- Thread `0` is the producer and thread `1` the consumer: no other thread calls an
operation. -/
def Act.Spsc : Act α → Prop
  | .enqueue t _ => t = 0
  | .dequeue t => t = 1
  | .step _ _ => True

instance (a : Act α) : Decidable a.Spsc :=
  match a with
  | .enqueue t _ => inferInstanceAs (Decidable (t = 0))
  | .dequeue t => inferInstanceAs (Decidable (t = 1))
  | .step _ _ => inferInstanceAs (Decidable True)

/-- Thread `t` of a two-thread system. -/
theorem thread_pair (s : Sys α) {p c : Thread α} (h : s.threads = [p, c]) (t : Nat) :
    s.thread t = if t = 0 then p else if t = 1 then c else .idle := by
  rw [Sys.thread, h, getD_pair]

section Runs

variable [Inhabited α] (cfg : Config)

/-- States reached from a fresh queue with two threads, the producer and the consumer. -/
inductive SpscReachable : Sys α → Prop
  | init : SpscReachable (Sys.init cfg 2)
  | step {s : Sys α} : SpscReachable s → (a : Act α) → a.Spsc → SpscReachable (s.act cfg a)

/-- The two threads satisfy `Core` against some list of nodes. -/
def Inv (s : Sys α) : Prop :=
  ∃ p c L, s.threads = [p, c] ∧ Core cfg s.mem p c s.enqueued s.dequeued L

variable {cfg}

theorem SpscReachable.reachable {s : Sys α} (h : SpscReachable cfg s) : Sys.Reachable cfg 2 s := by
  induction h with
  | init => exact .init
  | step _ a _ ih => exact ih.step a

theorem inv_init : Inv cfg (Sys.init cfg 2 : Sys α) := by
  have hl := (MemoryPool.Layout.empty cfg.blocks).allocate cfg.blocks_pos
  refine ⟨.idle, .idle, [(MemoryPool.empty.allocateBlock cfg.blocks).1], rfl,
    { chain := .link ?_
      tail_mem := List.mem_singleton_self _
      layout := hl
      values := rfl
      size_eq := rfl
      size_le := Nat.zero_le _
      prod_size := False.elim
      cons_size := False.elim
      prod := trivial
      cons := trivial }⟩
  simp only [Sys.init, Mem.construct_next, Mem.construct_head, Function.update_same]
  exact .null

theorem Inv.act {s : Sys α} (h : Inv cfg s) {a : Act α} (ha : a.Spsc) :
    Inv cfg (s.act cfg a) := by
  obtain ⟨p, c, L, hth, hc⟩ := h
  have hthr := thread_pair s hth
  cases a with
  | enqueue t v =>
    cases (ha : t = 0)
    show Inv cfg (s.start 0 _)
    unfold Sys.start
    rw [hthr, if_pos rfl]
    cases p with
    | idle =>
      exact ⟨.enq (.checkSize v), c, L, by rw [hth]; rfl, hc.setProd trivial rfl rfl False.elim⟩
    | _ => exact ⟨_, c, L, hth, hc⟩
  | dequeue t =>
    cases (ha : t = 1)
    show Inv cfg (s.start 1 _)
    unfold Sys.start
    rw [hthr, if_neg (by decide), if_pos rfl]
    cases c with
    | idle =>
      exact ⟨p, .deq .checkSize, L, by rw [hth]; rfl, hc.setCons trivial rfl rfl False.elim⟩
    | _ => exact ⟨p, _, L, hth, hc⟩
  | step t sp =>
    show Inv cfg (s.exec cfg t sp)
    unfold Sys.exec
    rw [hthr]
    by_cases h0 : t = 0
    · subst h0
      rw [if_pos rfl]
      cases p with
      | enq pc =>
        obtain ⟨L', hL'⟩ := hc.step_enq sp
        exact ⟨_, c, L', by rw [hth]; rfl, hL'⟩
      | deq => exact hc.prod.elim
      | _ => exact ⟨_, c, L, hth, hc⟩
    by_cases h1 : t = 1
    · subst h1
      rw [if_neg (by decide), if_pos rfl]
      cases c with
      | deq pc =>
        obtain ⟨L', hL'⟩ := hc.step_deq sp
        exact ⟨p, _, L', by rw [hth]; rfl, hL'⟩
      | enq => exact hc.cons.elim
      | _ => exact ⟨p, _, L, hth, hc⟩
    rw [if_neg h0, if_neg h1]
    exact ⟨p, c, L, hth, hc⟩

theorem SpscReachable.run {s : Sys α} (h : SpscReachable cfg s) (acts : List (Act α))
    (ha : ∀ a ∈ acts, a.Spsc) : SpscReachable cfg (Sys.run cfg s acts) := by
  induction acts generalizing s with
  | nil => exact h
  | cons a acts ih =>
    exact ih (h.step a (ha a (List.mem_cons_self _ _))) fun b hb => ha b (List.mem_cons_of_mem _ hb)

/-- The invariant holds in every state of a run with one producer and one consumer. -/
theorem SpscReachable.inv {s : Sys α} (h : SpscReachable cfg s) : Inv cfg s := by
  induction h with
  | init => exact inv_init
  | step _ a ha ih => exact ih.act ha

/-- No thread of a one-producer, one-consumer run dereferences `nullptr`; the values
dequeued are a prefix of the values enqueued, so each was enqueued, none twice, and in
order; and when no operation is in progress the values linked after `head_` are
exactly the values enqueued and not dequeued. -/
theorem spsc_fifo {s : Sys α} (h : SpscReachable cfg s) :
    (∀ th ∈ s.threads, th ≠ .crashed) ∧ s.dequeued <+: s.enqueued ∧
      (s.Quiescent → ∃ R, Chain s.mem.next (s.mem.next s.mem.head) R ∧
        s.dequeued ++ R.map s.mem.data = s.enqueued) := by
  obtain ⟨p, c, L, hth, hc⟩ := h.inv
  obtain ⟨R, rfl, hR⟩ := hc.chain.eq_cons
  refine ⟨?_, hc.dequeued_prefix, fun hq => ⟨R, hR, ?_⟩⟩
  · rw [hth]
    rintro th hth' rfl
    rcases List.mem_pair.1 hth' with e | e
    · exact (e ▸ hc.prod : ProdAt _ _ _ Thread.crashed)
    · exact (e ▸ hc.cons : ConsAt _ _ Thread.crashed)
  · obtain rfl := hq p (by simp [hth])
    obtain rfl := hq c (by simp [hth])
    simpa using hc.values

/-- The producer enqueues `1`, links `2` and pauses before its `tail_` CAS; the consumer
dequeues `1`; the producer finishes. -/
def spscTrace : List (Act Nat) :=
  (.enqueue 0 1 :: steps 0 10) ++ (.enqueue 0 2 :: steps 0 8) ++ (.dequeue 1 :: steps 1 9) ++
    steps 0 2

/-- The state `spscTrace` reaches from a fresh queue with two threads. -/
def spscRun : Sys Nat := Sys.run Config.default (Sys.init Config.default 2) spscTrace

theorem spscRun_reachable : SpscReachable Config.default spscRun :=
  SpscReachable.init.run _ (by decide)

theorem spsc_fifo_spscRun :
    SpscReachable Config.default spscRun ∧
      ((∀ th ∈ spscRun.threads, th ≠ .crashed) ∧ spscRun.dequeued <+: spscRun.enqueued ∧
        (spscRun.Quiescent → ∃ R, Chain spscRun.mem.next (spscRun.mem.next spscRun.mem.head) R ∧
          spscRun.dequeued ++ R.map spscRun.mem.data = spscRun.enqueued)) :=
  ⟨spscRun_reachable, spsc_fifo spscRun_reachable⟩

/-- With one producer and one consumer, at most `capacity` values are ever linked after
`head_`. -/
theorem spsc_held_le {s : Sys α} (h : SpscReachable cfg s) :
    ∃ R, Chain s.mem.next (s.mem.next s.mem.head) R ∧ R.length ≤ cfg.capacity := by
  obtain ⟨p, c, L, -, hc⟩ := h.inv
  obtain ⟨R, rfl, hR⟩ := hc.chain.eq_cons
  exact ⟨R, hR, hc.held_le⟩

end Runs

end MPMCQueue
end Lockfree
end AsyncToolkit
