import Mathlib.Data.Fintype.EquivFin
import Mathlib.Data.List.FinRange
import Mathlib.Order.Basic
import StrategyCanvas.Flow.Order
import StrategyCanvas.Proofs.Flow.Walk

/-!
# Execution orders

An order of all nodes in which every edge goes forward exists exactly if the graph is acyclic, and
counting down finds the lexicographically least one. The argument has three steps.

* `Settles` says what the counts mean while edges are counted down. It keeps every count above zero
  where something is taken off it, and makes the ready nodes exactly those that may come next.
* `Greedy` describes an order that always goes on with the least node that may come next. Counting
  down produces such an order (`arrange?_greedy`).
* A greedy order is least among the orders that `Legal` allows, and stops early only at a cycle.
-/

namespace StrategyCanvas

open Relation

namespace Flow

variable {n : Nat} {g : Flow n} {ordered pending order : List (Fin n)} {c : Countdown n} {i : Fin n}

/-! ## What counts mean -/

/-- A node may come next if it is not in order yet and nothing it waits for is still to come. -/
def IsReady (g : Flow n) (ordered : List (Fin n)) (i : Fin n) : Prop :=
  i ∉ ordered ∧ ∀ j, g.Edge j i → j ∈ ordered

/-- The number of edges into a node whose sources are still to come. -/
def waiting (g : Flow n) (ordered : List (Fin n)) (i : Fin n) : Nat :=
  g.edges.countP fun e => !ordered.contains e.1 && e.2 = i

/-- A position waits for every edge into it whose source is not in the order yet. -/
theorem waiting_eq_countP :
    g.waiting ordered i = g.edges.countP fun e => e.1 ∉ ordered ∧ e.2 = i := by
  refine List.countP_congr fun e _ => ?_
  simp

/-- A position waits for nothing once all its sources are in the order. -/
theorem waiting_eq_zero_iff : g.waiting ordered i = 0 ↔ ∀ j, g.Edge j i → j ∈ ordered := by
  simp only [waiting_eq_countP, List.countP_eq_zero, decide_eq_true_eq, not_and, Edge]
  constructor
  · intro none j edge
    by_contra absent
    exact none (j, i) edge absent rfl
  · rintro all ⟨s, t⟩ mem absent rfl
    exact absent (all s mem)

/-- At the start a position waits for all edges into it. -/
theorem waiting_nil : g.waiting [] i = (g.edges.map Prod.snd).count i := by
  rw [waiting_eq_countP, List.count, List.countP_map]
  refine List.countP_congr fun e _ => ?_
  simp

/-- A position counts among the successors of another once for each edge between them. -/
theorem count_successors (i k : Fin n) :
    (g.successors i).count k = g.edges.countP fun e => e.1 = i ∧ e.2 = k := by
  rw [successors, List.count, List.countP_map, List.countP_filter]
  refine List.countP_congr fun e _ => ?_
  simp [and_comm]

/-- When a node comes into order, its edges are no longer waited for. -/
theorem waiting_eq_add_count (h : i ∉ ordered) (k : Fin n) :
    g.waiting ordered k = g.waiting (i :: ordered) k + (g.successors i).count k := by
  rw [count_successors, waiting_eq_countP, waiting_eq_countP]
  -- edge by edge: an edge that starts at `i` goes over from one count to the other
  induction g.edges with
  | nil => rfl
  | cons e rest ih =>
    simp only [List.countP_cons, ih, List.mem_cons]
    by_cases source : e.1 = i
    · simp only [source, h, true_or, not_true_eq_false, false_and, not_false_eq_true, true_and]
      split
      · simp
        omega
      · simp
    · simp only [source, false_or, false_and]
      simp
      omega

/-- What a countdown says about its graph: some nodes are in order, and edges into the pending nodes
are still to be counted down. -/
structure Settles (g : Flow n) (ordered pending : List (Fin n)) (c : Countdown n) : Prop where
  counts : ∀ k, c.counts.get k = g.waiting ordered k + pending.count k
  zero : ∀ k ∈ ordered, c.counts.get k = 0
  mem_ready : ∀ k, k ∈ c.ready ↔ k ∉ ordered ∧ c.counts.get k = 0
  ascending : c.ready.Pairwise (· < ·)

@[simp] theorem mem_insertNode {i k : Fin n} {nodes : List (Fin n)} :
    k ∈ insertNode i nodes ↔ k = i ∨ k ∈ nodes := by
  induction nodes with
  | nil => simp [insertNode]
  | cons j rest ih =>
    simp only [insertNode]
    split
    · simp
    · split
      · rename_i same
        simp [same]
      · simp only [List.mem_cons, ih]
        tauto

/-- Insertion keeps positions in increasing order. -/
theorem pairwise_insertNode {nodes : List (Fin n)} (h : nodes.Pairwise (· < ·)) (i : Fin n) :
    (insertNode i nodes).Pairwise (· < ·) := by
  induction nodes with
  | nil => simp [insertNode]
  | cons j rest ih =>
    obtain ⟨first, tail⟩ := List.pairwise_cons.mp h
    simp only [insertNode]
    split
    · rename_i less
      refine List.pairwise_cons.mpr ⟨fun k mem => ?_, h⟩
      rcases List.mem_cons.mp mem with rfl | mem
      · exact less
      · exact less.trans (first k mem)
    · split
      · exact h
      · rename_i notLess different
        have less : j < i := lt_of_le_of_ne (not_lt.mp notLess) (Ne.symm different)
        refine List.pairwise_cons.mpr ⟨fun k mem => ?_, ih tail⟩
        rcases mem_insertNode.mp mem with rfl | mem
        · exact less
        · exact first k mem

/-- The countdown starts with nothing ordered and nothing pending. -/
theorem Settles.start (g : Flow n) : Settles g [] [] (.start g) := by
  refine ⟨fun k => ?_, ?_, fun k => ?_, ?_⟩
  · rw [waiting_nil]
    exact getElem_tally _ k
  · intro k mem
    contradiction
  · simp [Countdown.start]
  · exact (List.pairwise_lt_finRange n).filter _

/-- The least ready node comes into order; its edges are now to be counted down. -/
theorem Settles.next {rest : List (Fin n)} (h : Settles g ordered [] c)
    (head : c.ready = i :: rest) : Settles g (i :: ordered) (g.successors i) ⟨c.counts, rest⟩ := by
  have ready : i ∉ ordered ∧ c.counts.get i = 0 := (h.mem_ready i).mp (by simp [head])
  have ascending := h.ascending
  rw [head, List.pairwise_cons] at ascending
  refine ⟨fun k => ?_, ?_, fun k => ?_, ascending.2⟩
  · show c.counts.get k = _
    rw [h.counts k, waiting_eq_add_count ready.1 k, List.count_nil, Nat.add_zero]
  · intro k mem
    rcases List.mem_cons.mp mem with rfl | mem
    · exact ready.2
    · exact h.zero k mem
  · have old := h.mem_ready k
    rw [head, List.mem_cons] at old
    show k ∈ rest ↔ k ∉ i :: ordered ∧ c.counts.get k = 0
    rw [List.mem_cons, not_or]
    constructor
    · intro mem
      have greater : i < k := ascending.1 k mem
      exact ⟨⟨greater.ne', (old.mp (.inr mem)).1⟩, (old.mp (.inr mem)).2⟩
    · rintro ⟨⟨different, absent⟩, zero⟩
      exact (old.mpr ⟨absent, zero⟩).resolve_left different

/-- Counting one edge down takes one off a count above zero. -/
theorem Settles.lower? (h : Settles g ordered (i :: pending) c) :
    ∃ next, c.lower? i = some next ∧ Settles g ordered pending next := by
  -- the edge is still pending, so it is part of the count
  have count : c.counts.get i = (g.waiting ordered i + pending.count i) + 1 := by
    rw [h.counts i, List.count_cons_self]
    omega
  -- the counts of nodes that are in order are zero
  have absent : i ∉ ordered := by
    intro mem
    have := h.zero i mem
    omega
  generalize left : g.waiting ordered i + pending.count i = k at count
  have lowered : c.lower? i
      = some ⟨c.counts.set i k, if k = 0 then insertNode i c.ready else c.ready⟩ := by
    simp only [Countdown.lower?, count]
  refine ⟨_, lowered, fun m => ?_, fun m mem => ?_, fun m => ?_, ?_⟩
  · by_cases same : i = m
    · subst same
      simp [left]
    · have other : i.val ≠ m.val := fun equal => same (Fin.ext equal)
      have old := h.counts m
      rw [List.count_cons_of_ne same] at old
      simpa [other] using old
  · have other : i.val ≠ m.val := fun equal => absent (Fin.ext equal ▸ mem)
    simpa [other] using h.zero m mem
  · have old := h.mem_ready m
    by_cases same : i = m
    · subst same
      by_cases zero : k = 0
      · simp [zero, absent]
      · rw [count] at old
        simpa [zero] using old
    · have other : i.val ≠ m.val := fun equal => same (Fin.ext equal)
      by_cases zero : k = 0
      · simpa [zero, other, Ne.symm same] using old
      · simpa [zero, other] using old
  · by_cases zero : k = 0
    · simpa [zero] using pairwise_insertNode h.ascending i
    · simpa [zero] using h.ascending

/-- All pending counts can be lowered, and then nothing is pending. -/
theorem Settles.lowerAll? (h : Settles g ordered pending c) :
    ∃ next, c.lowerAll? pending = some next ∧ Settles g ordered [] next := by
  induction pending generalizing c with
  | nil => exact ⟨c, rfl, h⟩
  | cons i rest ih =>
    obtain ⟨middle, lowered, settles⟩ := h.lower?
    obtain ⟨next, all, settles⟩ := ih settles
    exact ⟨next, by simp only [Countdown.lowerAll?, lowered, all], settles⟩

/-- The ready positions are those that can come next. -/
theorem Settles.mem_ready_iff (h : Settles g ordered [] c) : i ∈ c.ready ↔ g.IsReady ordered i := by
  rw [h.mem_ready, h.counts, List.count_nil, Nat.add_zero, waiting_eq_zero_iff, IsReady]

/-! ## Greedy orders -/

/-- An order that goes on with the least node that may come next, as long as there is one. -/
inductive Greedy (g : Flow n) : List (Fin n) → List (Fin n) → Prop
  | stop {done : List (Fin n)} : (∀ i, ¬ g.IsReady done i) → Greedy g done []
  | next {done rest : List (Fin n)} {i : Fin n} : g.IsReady done i →
      (∀ j, g.IsReady done j → i ≤ j) → Greedy g (i :: done) rest → Greedy g done (i :: rest)

/-- The first of the ready positions comes next, and the counts of its successors are lowered. -/
theorem arrange?_of_ready {rest : List (Fin n)} {next : Countdown n} (head : c.ready = i :: rest)
    (lowered : Countdown.lowerAll? ⟨c.counts, rest⟩ (g.successors i) = some next) :
    g.arrange? c = (g.arrange? next).map fun o => ⟨i :: o.ordered, o.leftOver⟩ := by
  rw [arrange?]
  split
  · rename_i none
    rw [head] at none
    contradiction
  · rename_i head'
    rw [head] at head'
    obtain ⟨rfl, rfl⟩ := List.cons.inj head'
    split
    · rename_i failed
      rw [lowered] at failed
      contradiction
    · rename_i lowered'
      rw [lowered] at lowered'
      rw [Option.some.inj lowered']

/-- Counting down never takes anything off a count of zero, and produces a greedy order. What is
left over are the nodes that never come into order. -/
theorem arrange?_greedy (h : Settles g ordered [] c) :
    ∃ result, g.arrange? c = some result ∧ Greedy g ordered result.ordered
      ∧ result.leftOver = (List.finRange n).filter fun i => i ∉ ordered ∧ i ∉ result.ordered := by
  induction c using arrange?.induct g generalizing ordered with
  | case1 c none =>
    have stuck (i : Fin n) : ¬ g.IsReady ordered i := by
      rw [← h.mem_ready_iff, none]
      exact List.not_mem_nil
    refine ⟨_, by rw [arrange?, none], .stop stuck, ?_⟩
    -- as no node is ready, a node is in order exactly if its count is zero
    refine List.filter_congr fun i _ => ?_
    have ready := h.mem_ready i
    have zero := h.zero i
    rw [none] at ready
    simp only [List.not_mem_nil, not_false_eq_true, and_true, false_iff, not_and] at ready ⊢
    simp only [decide_eq_decide]
    constructor
    · intro positive mem
      have := zero mem
      omega
    · intro absent
      have := ready absent
      omega
  | case2 c i rest head failed =>
    obtain ⟨next, lowered, -⟩ := (h.next head).lowerAll?
    rw [lowered] at failed
    contradiction
  | case3 c i rest head next lowered ih =>
    obtain ⟨next', lowered', settles⟩ := (h.next head).lowerAll?
    rw [lowered] at lowered'
    obtain rfl := Option.some.inj lowered'
    obtain ⟨result, arranged, greedy, left⟩ := ih settles
    have ready : g.IsReady ordered i := h.mem_ready_iff.mp (by simp [head])
    -- ready nodes ascend, so the first of them is the least
    have least (j : Fin n) (hj : g.IsReady ordered j) : i ≤ j := by
      have mem := h.mem_ready_iff.mpr hj
      have ascending := h.ascending
      rw [head] at mem ascending
      rcases List.mem_cons.mp mem with rfl | mem
      · exact le_rfl
      · exact (List.rel_of_pairwise_cons ascending mem).le
    refine ⟨⟨i :: result.ordered, result.leftOver⟩, ?_, .next ready least greedy, ?_⟩
    · rw [arrange?_of_ready head lowered, arranged, Option.map_some]
    · rw [left]
      refine List.filter_congr fun k _ => ?_
      simp only [List.mem_cons, not_or, decide_eq_decide]
      tauto

/-! ## Legal orders -/

/-- Every node may come next when its turn comes. -/
def Legal (g : Flow n) : List (Fin n) → List (Fin n) → Prop
  | _, [] => True
  | ordered, i :: rest => g.IsReady ordered i ∧ Legal g (i :: ordered) rest

/-- An order that takes the least ready position each time respects all edges. -/
theorem Greedy.legal (h : Greedy g ordered order) : Legal g ordered order := by
  induction h with
  | stop => trivial
  | next ready _ _ ih => exact ⟨ready, ih⟩

/-- An order is legal if it repeats nothing and every edge into it comes from before its end. -/
theorem legal_iff : Legal g ordered order ↔ order.Nodup ∧ (∀ i ∈ order, i ∉ ordered)
    ∧ ∀ i j, g.Edge i j → j ∈ order → i ∈ ordered ∨ order.idxOf i < order.idxOf j := by
  induction order generalizing ordered with
  | nil => simp [Legal]
  | cons k rest ih =>
    simp only [Legal, ih, IsReady]
    constructor
    · rintro ⟨⟨absent, before⟩, nodup, later, forward⟩
      have fresh : k ∉ rest := fun mem => later k mem List.mem_cons_self
      refine ⟨List.nodup_cons.mpr ⟨fresh, nodup⟩, ?_, ?_⟩
      · intro i mem
        rcases List.mem_cons.mp mem with rfl | mem
        · exact absent
        · exact fun old => later i mem (List.mem_cons_of_mem k old)
      · intro i j edge mem
        rcases List.mem_cons.mp mem with rfl | mem
        · exact .inl (before i edge)
        · have different : k ≠ j := fun same => fresh (same ▸ mem)
          rw [List.idxOf_cons_ne rest different]
          by_cases same : k = i
          · subst same
            rw [List.idxOf_cons_self]
            exact .inr (Nat.succ_pos _)
          · rw [List.idxOf_cons_ne rest same]
            rcases forward i j edge mem with old | less
            · exact .inl ((List.mem_cons.mp old).resolve_left (Ne.symm same))
            · exact .inr (Nat.succ_lt_succ less)
    · rintro ⟨nodup, later, forward⟩
      obtain ⟨fresh, nodup⟩ := List.nodup_cons.mp nodup
      refine ⟨⟨later k List.mem_cons_self, fun i edge => ?_⟩, nodup, fun i mem => ?_, ?_⟩
      · have first := forward i k edge List.mem_cons_self
        rw [List.idxOf_cons_self] at first
        exact first.resolve_right (Nat.not_lt_zero _)
      · rw [List.mem_cons, not_or]
        exact ⟨fun same => fresh (same ▸ mem), later i (List.mem_cons_of_mem k mem)⟩
      · intro i j edge mem
        have different : k ≠ j := fun same => fresh (same ▸ mem)
        have first := forward i j edge (List.mem_cons_of_mem k mem)
        by_cases same : k = i
        · exact .inl (List.mem_cons.mpr (.inl same.symm))
        · rw [List.idxOf_cons_ne rest different, List.idxOf_cons_ne rest same] at first
          exact first.imp (List.mem_cons_of_mem k) Nat.lt_of_succ_lt_succ

/-- No legal order of all nodes comes before the greedy one: at the first difference the greedy
order has the least node that may stand there. -/
theorem Greedy.least {other : List (Fin n)} (h : Greedy g ordered order)
    (legal : Legal g ordered other) (full : ∀ i, i ∈ ordered ∨ i ∈ other) :
    order = other ∨ List.Lex (· < ·) order other := by
  induction h generalizing other with
  | stop stuck =>
    cases other with
    | nil => exact .inl rfl
    | cons j rest => exact absurd legal.1 (stuck j)
  | @next ordered rest i ready least _ ih =>
    cases other with
    | nil => exact absurd (full i) (by simp [ready.1])
    | cons j others =>
      rcases (least j legal.1).lt_or_eq with less | rfl
      -- the first difference decides
      · exact .inr (.rel less)
      · have full' (k : Fin n) : k ∈ i :: ordered ∨ k ∈ others := by
          rcases full k with mem | mem
          · exact .inl (List.mem_cons_of_mem i mem)
          · rcases List.mem_cons.mp mem with rfl | mem
            · exact .inl List.mem_cons_self
            · exact .inr mem
        rcases ih legal.2 full' with same | less
        · exact .inl (by rw [same])
        · exact .inr (.cons less)

/-- When a greedy order stops, nothing may come next. -/
theorem Greedy.not_isReady (h : Greedy g ordered order) (i : Fin n) :
    ¬ g.IsReady (order.reverse ++ ordered) i := by
  induction h with
  | stop stuck => exact stuck i
  | next _ _ _ ih => simpa using ih

/-- On an acyclic graph, a greedy order reaches every node. -/
theorem Greedy.mem_of_isAcyclic (h : Greedy g [] order) (acyclic : IsAcyclic g.Edge) (i : Fin n) :
    i ∈ order := by
  by_contra absent
  obtain ⟨j, missing, first⟩ := acyclic.exists_first (s := {k | k ∉ order}) ⟨i, absent⟩
  have ready : g.IsReady (order.reverse ++ []) j := by
    rw [List.append_nil]
    refine ⟨by simpa using missing, fun k edge => ?_⟩
    by_contra early
    exact first k (by simpa using early) edge
  exact h.not_isReady j ready

/-! ## Execution orders -/

/-- All nodes, each once, so that every edge goes forward. -/
structure IsExecutionOrder (g : Flow n) (order : List (Fin n)) : Prop where
  perm : order.Perm (List.finRange n)
  forward : ∀ i j, g.Edge i j → order.idxOf i < order.idxOf j

/-- An execution order is a legal one that leaves no position out. -/
theorem isExecutionOrder_iff :
    g.IsExecutionOrder order ↔ Legal g [] order ∧ n ≤ order.length := by
  rw [legal_iff]
  constructor
  · rintro ⟨perm, forward⟩
    refine ⟨⟨perm.nodup_iff.mpr (List.nodup_finRange n), ?_, ?_⟩, ?_⟩
    · simp
    · intro i j edge _
      exact .inr (forward i j edge)
    · rw [perm.length_eq, List.length_finRange]
  · rintro ⟨⟨nodup, -, forward⟩, full⟩
    have sub : order.Subperm (List.finRange n) :=
      nodup.subperm fun i _ => List.mem_finRange i
    have perm : order.Perm (List.finRange n) :=
      sub.perm_of_length_le (by rw [List.length_finRange]; exact full)
    refine ⟨perm, fun i j edge => ?_⟩
    have mem : j ∈ order := perm.mem_iff.mpr (List.mem_finRange j)
    exact (forward i j edge mem).resolve_left List.not_mem_nil

/-- No edge leads back in an execution order. -/
theorem IsExecutionOrder.pairwise (h : g.IsExecutionOrder order) :
    order.Pairwise fun i j => ¬ g.Edge j i := by
  have nodup : order.Nodup := h.perm.nodup_iff.mpr (List.nodup_finRange n)
  rw [List.pairwise_iff_getElem]
  intro k l hk hl less edge
  have forward := h.forward _ _ edge
  rw [nodup.idxOf_getElem, nodup.idxOf_getElem] at forward
  omega

/-- A graph with an execution order is acyclic: positions in the order grow along walks. -/
theorem IsExecutionOrder.isAcyclic (h : g.IsExecutionOrder order) : IsAcyclic g.Edge := by
  have increasing : IsAcyclic fun a b : Nat => a < b := by
    intro a walk
    rw [transGen_eq_self] at walk
    exact lt_irrefl a walk
  exact increasing.of_map order.idxOf h.forward

/-- What ordering a graph comes to: a greedy order, kept if it has all nodes. -/
theorem exists_greedy (g : Flow n) :
    ∃ result, g.arrange? (.start g) = some result ∧ Greedy g [] result.ordered
      ∧ g.order = if result.ordered.length < n then .error result.leftOver
          else .ok result.ordered := by
  obtain ⟨result, arranged, greedy, -⟩ := arrange?_greedy (Settles.start g)
  exact ⟨result, arranged, greedy, by simp only [order, arranged]⟩

/-- There is one greedy order only. -/
theorem Greedy.unique {other : List (Fin n)} (h : Greedy g ordered order)
    (h' : Greedy g ordered other) : order = other := by
  induction h generalizing other with
  | stop stuck =>
    cases h' with
    | stop => rfl
    | next ready => exact absurd ready (stuck _)
  | next ready least _ ih =>
    cases h' with
    | stop stuck => exact absurd ready (stuck _)
    | next ready' least' greedy' =>
      obtain rfl := le_antisymm (least _ ready') (least' _ ready)
      rw [ih greedy']

/-- The order depends on which edges there are, not on how they are listed. -/
theorem order_congr {g' : Flow n} (same : g.Edge = g'.Edge) : g.order = g'.order := by
  have mono {ordered order : List (Fin n)} (h : Greedy g ordered order) :
      Greedy g' ordered order := by
    have ready (done : List (Fin n)) (i : Fin n) : g.IsReady done i ↔ g'.IsReady done i := by
      simp only [IsReady, same]
    induction h with
    | stop stuck => exact .stop fun i free => stuck i ((ready _ i).mpr free)
    | next free least _ ih =>
      exact .next ((ready _ _).mp free) (fun j free => least j ((ready _ j).mpr free)) ih
  obtain ⟨result, arranged, greedy, left⟩ := arrange?_greedy (Settles.start g)
  obtain ⟨result', arranged', greedy', left'⟩ := arrange?_greedy (Settles.start g')
  have ordered : result.ordered = result'.ordered := (mono greedy).unique greedy'
  have leftOver : result.leftOver = result'.leftOver := by rw [left, left', ordered]
  simp only [order, arranged, arranged', ordered, leftOver]

/-- The order of positions depends on the edges between positions. -/
theorem toOption_order_congr {m : Nat} {g' : Flow m} (size : m = n)
    (edges : g'.edges.map (Prod.map Fin.val Fin.val) = g.edges.map (Prod.map Fin.val Fin.val)) :
    g'.order.toOption.map (List.map Fin.val) = g.order.toOption.map (List.map Fin.val) := by
  subst size
  have injective : Function.Injective (Prod.map Fin.val Fin.val : Fin m × Fin m → Nat × Nat) :=
    Fin.val_injective.prodMap Fin.val_injective
  have same : g' = g := by
    rw [show g' = ⟨g'.edges⟩ from rfl, List.map_injective_iff.mpr injective edges]
  rw [same]

/-- The order that is found respects all edges, and takes the least position each time. -/
theorem order_eq_ok (h : g.order = .ok order) :
    g.IsExecutionOrder order ∧ Greedy g [] order := by
  obtain ⟨result, -, greedy, eq⟩ := exists_greedy g
  rw [h] at eq
  split at eq
  · contradiction
  · rename_i full
    obtain rfl := Except.ok.inj eq
    exact ⟨isExecutionOrder_iff.mpr ⟨greedy.legal, not_lt.mp full⟩, greedy⟩

/-- There is an execution order exactly if there is no cycle. -/
theorem isOk_order_iff : (∃ order, g.order = .ok order) ↔ IsAcyclic g.Edge := by
  constructor
  · rintro ⟨order, h⟩
    exact (order_eq_ok h).1.isAcyclic
  · intro acyclic
    obtain ⟨result, -, greedy, eq⟩ := exists_greedy g
    -- the greedy order has every node, so it is long enough to be kept
    have sub : (List.finRange n).Subperm result.ordered :=
      (List.nodup_finRange n).subperm fun i _ => greedy.mem_of_isAcyclic acyclic i
    have full : n ≤ result.ordered.length := by
      simpa using sub.length_le
    rw [if_neg (not_lt.mpr full)] at eq
    exact ⟨_, eq⟩

end Flow

/-- No count is ever taken below zero, there is an execution order exactly if no walk along the
links between positions leads back to its start, and it is the lexicographically least one in which
every link goes forward. -/
theorem executionOrder_isLeast (ids : List String) (ends : List (String × String)) :
    ((Flow.ofIds ids ends).arrange? (.start (.ofIds ids ends))).isSome
    ∧ ((∃ order, executionOrder ids ends = .ok order) ↔ ∀ i, ¬ TransGen (Flow.Links ids ends) i i)
    ∧ ∀ order, executionOrder ids ends = .ok order →
        order.Perm (List.finRange ids.length)
        ∧ (∀ i j, Flow.Links ids ends i j → order.idxOf i < order.idxOf j)
        ∧ ∀ other : List (Fin ids.length), other.Perm (List.finRange ids.length) →
            (∀ i j, Flow.Links ids ends i j → other.idxOf i < other.idxOf j) →
            order = other ∨ List.Lex (· < ·) order other := by
  have links : (Flow.ofIds ids ends).Edge = Flow.Links ids ends := by
    ext i j
    exact Flow.edge_ofIds
  have isOk (order : List (Fin ids.length)) :
      executionOrder ids ends = .ok order ↔ (Flow.ofIds ids ends).order = .ok order := by
    unfold executionOrder
    cases (Flow.ofIds ids ends).order with
    | ok found => simp [Except.mapError]
    | error leftOver => simp [Except.mapError]
  refine ⟨?_, ?_, fun order found => ?_⟩
  · obtain ⟨result, arranged, -⟩ := Flow.exists_greedy (.ofIds ids ends)
    rw [arranged]
    rfl
  · simp only [isOk, Flow.isOk_order_iff, IsAcyclic, links]
  · obtain ⟨executes, greedy⟩ := Flow.order_eq_ok ((isOk order).mp found)
    have forward := executes.forward
    rw [links] at forward
    refine ⟨executes.perm, forward, fun other perm forward' => ?_⟩
    have legal : Flow.Legal (.ofIds ids ends) [] other :=
      (Flow.isExecutionOrder_iff.mp ⟨perm, by rwa [links]⟩).1
    refine greedy.least legal fun i => .inr ?_
    exact perm.mem_iff.mpr (List.mem_finRange i)

/-- Of two blocks with one id the later one is meant; the earlier one waits for nothing. -/
theorem executionOrder_of_repeated_id :
    executionOrder ["a", "b", "a"] [("a", "b")] = .ok [0, 2, 1]
    ∧ ([0, 2, 1] : List (Fin 3)).Perm (List.finRange 3) := by
  have order : executionOrder ["a", "b", "a"] [("a", "b")] = .ok [0, 2, 1] := by decide +kernel
  exact ⟨order, ((executionOrder_isLeast ["a", "b", "a"] [("a", "b")]).2.2 _ order).1⟩

end StrategyCanvas
