import StrategyCanvas.Proofs.Flow.Cycle
import StrategyCanvas.Proofs.Flow.Schedule

/-!
# Circular data flows

Three procedures look for circles, each in its own way: the search into depth, the ordering, which
gets stuck, and the search that tells whether one more connection would close a circle. They agree.
There is no order exactly if the search finds a cycle (`hasCycle_ofIds_iff`), the blocks that an
ordering leaves over are those on a cycle or behind one (`leftOver_executionOrder`), and what the
last search foretells is what the first one finds with the connection added
(`wouldCloseCycle_eq_hasCycle`).
-/

namespace StrategyCanvas

open Relation

namespace Flow

variable {n : Nat} {g : Flow n} {order : List (Fin n)} {i j : Fin n}

/-! ## Stuck orders -/

/-- An order takes in the start of a walk before its end. -/
theorem Greedy.idxOf_lt_of_walk (h : Greedy g [] order) (walk : TransGen g.Edge i j)
    (mem : j ∈ order) : i ∈ order ∧ order.idxOf i < order.idxOf j := by
  obtain ⟨-, -, forward⟩ := legal_iff.mp h.legal
  have step {a b : Fin n} (edge : g.Edge a b) (mem : b ∈ order) :
      a ∈ order ∧ order.idxOf a < order.idxOf b := by
    have less := (forward a b edge mem).resolve_left List.not_mem_nil
    exact ⟨List.idxOf_lt_length_iff.mp (less.trans_le List.idxOf_le_length), less⟩
  induction walk using TransGen.head_induction_on with
  | single edge => exact step edge mem
  | head edge _ ih =>
    obtain ⟨known, less⟩ := step edge ih.1
    exact ⟨known, less.trans ih.2⟩

/-- A greedy order leaves out the nodes on a cycle and those behind one. -/
theorem Greedy.not_mem_iff (h : Greedy g [] order) :
    i ∉ order ↔ ∃ j, TransGen g.Edge j j ∧ ReflTransGen g.Edge j i := by
  constructor
  · intro absent
    -- a node that is left out waits for another one
    have back : ∀ k ∈ {k | k ∉ order}, ∃ j ∈ {k | k ∉ order}, g.Edge j k := by
      intro k missing
      have stuck := h.not_isReady k
      simp only [IsReady, List.append_nil, List.mem_reverse, not_and, not_forall] at stuck
      obtain ⟨j, edge, missing'⟩ := stuck missing
      exact ⟨j, missing', edge⟩
    exact exists_cycle_of_forall_pred back absent
  · rintro ⟨j, cycle, walk⟩ mem
    have known : j ∈ order := by
      rcases reflTransGen_iff_eq_or_transGen.mp walk with rfl | walk
      · exact mem
      · exact (h.idxOf_lt_of_walk walk mem).1
    exact lt_irrefl _ (h.idxOf_lt_of_walk cycle known).2

theorem order_eq_error {leftOver : List (Fin n)} (h : g.order = .error leftOver) :
    leftOver.Pairwise (· < ·)
      ∧ ∀ i, i ∈ leftOver ↔ ∃ j, TransGen g.Edge j j ∧ ReflTransGen g.Edge j i := by
  obtain ⟨result, arranged, greedy, left⟩ := arrange?_greedy (Settles.start g)
  rw [order, arranged] at h
  dsimp only at h
  split at h
  · obtain rfl := Except.error.inj h
    rw [left]
    refine ⟨(List.pairwise_lt_finRange n).filter _, fun i => ?_⟩
    rw [← greedy.not_mem_iff, List.mem_filter]
    simp
  · contradiction

/-! ## One more edge -/

theorem links_append_singleton {ids : List String} {ends : List (String × String)}
    {source target : String} {s t : Fin ids.length} (hs : IsLast ids source s)
    (ht : IsLast ids target t) (i j : Fin ids.length) :
    Links ids (ends ++ [(source, target)]) i j ↔ Links ids ends i j ∨ i = s ∧ j = t := by
  simp only [Links, List.mem_append, List.mem_singleton, or_and_right, exists_or, exists_eq_left]
  refine or_congr_right ⟨?_, ?_⟩
  · rintro ⟨hi, hj⟩
    exact ⟨hi.unique hs, hj.unique ht⟩
  · rintro ⟨rfl, rfl⟩
    exact ⟨hs, ht⟩

end Flow

/-! ## Three procedures -/

variable {ids : List String} {ends : List (String × String)}

theorem executionOrder_eq_error_iff {e : CycleError} : executionOrder ids ends = .error e
    ↔ ∃ leftOver, (Flow.ofIds ids ends).order = .error leftOver
      ∧ e.blocks = leftOver.map ids.get := by
  obtain ⟨blocks⟩ := e
  unfold executionOrder
  cases (Flow.ofIds ids ends).order with
  | ok order => simp [Except.mapError]
  | error leftOver => simp [Except.mapError, eq_comm]

/-- The search into depth always comes to an end. It finds a cycle exactly if a walk of at least one
edge between blocks that are present leads back to its start, and exactly if there is no execution
order. -/
theorem hasCycle_ofIds_iff (ids : List String) (ends : List (String × String)) :
    ((Flow.ofIds ids ends).hasCycle = true ↔ ∃ i, TransGen (Flow.Links ids ends) i i)
    ∧ ((Flow.ofIds ids ends).hasCycle = true ↔ ∃ e, executionOrder ids ends = .error e) := by
  have failed : (∃ e, executionOrder ids ends = .error e)
      ↔ ¬ ∃ order, (Flow.ofIds ids ends).order = .ok order := by
    simp only [executionOrder_eq_error_iff]
    cases (Flow.ofIds ids ends).order with
    | ok order => simp
    | error leftOver => simp
  refine ⟨?_, ?_⟩
  · rw [Flow.hasCycle_eq_true_iff, Flow.edge_ofIds_eq]
  · rw [failed, Flow.isOk_order_iff, ← Flow.hasCycle_eq_false_iff, Bool.not_eq_false]

/-- If there is no execution order, the refusal names the blocks that lie on a cycle or behind one:
all of them and no others, each position once, in the order of the definition. -/
theorem leftOver_executionOrder {e : CycleError} (h : executionOrder ids ends = .error e) :
    ∃ leftOver : List (Fin ids.length), e.blocks = leftOver.map ids.get
      ∧ leftOver.Pairwise (· < ·)
      ∧ ∀ i, i ∈ leftOver ↔ ∃ j, TransGen (Flow.Links ids ends) j j
        ∧ ReflTransGen (Flow.Links ids ends) j i := by
  obtain ⟨leftOver, found, blocks⟩ := executionOrder_eq_error_iff.mp h
  obtain ⟨ascending, mem⟩ := Flow.order_eq_error found
  rw [Flow.edge_ofIds_eq] at mem
  exact ⟨leftOver, blocks, ascending, mem⟩

/-- The ids of blocks where the last one has the id of the first. -/
def tangledIds : List String := ["b", "a", "source", "c", "b"]

/-- Two circles that share a block, one of them doubled, with a block in front and one behind. -/
def tangledEnds : List (String × String) :=
  [("source", "a"), ("a", "c"), ("c", "a"), ("a", "c"), ("c", "c"), ("c", "b")]

/-- The blocks on the circles and behind them are left over, in the order of the blocks. -/
theorem leftOver_tangled : executionOrder tangledIds tangledEnds = .error ⟨["a", "c", "b"]⟩
    ∧ ∃ leftOver : List (Fin tangledIds.length), ["a", "c", "b"] = leftOver.map tangledIds.get
      ∧ leftOver.Pairwise (· < ·)
      ∧ ∀ i, i ∈ leftOver ↔ ∃ j, TransGen (Flow.Links tangledIds tangledEnds) j j
        ∧ ReflTransGen (Flow.Links tangledIds tangledEnds) j i := by
  have stuck : executionOrder tangledIds tangledEnds = .error ⟨["a", "c", "b"]⟩ := by
    decide +kernel
  exact ⟨stuck, leftOver_executionOrder stuck⟩

/-- Where there is no cycle, a connection between two blocks would close one exactly if there is one
with the connection added. -/
theorem wouldCloseCycle_eq_hasCycle {source target : String}
    (acyclic : ∀ i, ¬ TransGen (Flow.Links ids ends) i i) (hs : source ∈ ids) (ht : target ∈ ids) :
    wouldCloseCycle ids (.ofIds ids ends) source target
      = (Flow.ofIds ids (ends ++ [(source, target)])).hasCycle := by
  obtain ⟨s, start⟩ := Flow.exists_isLast hs
  obtain ⟨t, stop⟩ := Flow.exists_isLast ht
  have more : (Flow.ofIds ids (ends ++ [(source, target)])).Edge
      = fun i j => Flow.Links ids ends i j ∨ i = s ∧ j = t := by
    ext i j
    rw [Flow.edge_ofIds, Flow.links_append_singleton start stop]
  -- both sides say that a walk leads from the end of the connection back to its start
  have left : wouldCloseCycle ids (.ofIds ids ends) source target = true
      ↔ ReflTransGen (Flow.Links ids ends) t s := by
    rw [wouldCloseCycle_iff, Flow.edge_ofIds_eq]
    constructor
    · rintro (rfl | ⟨s', t', start', stop', walk⟩)
      · rw [start.unique stop]
      · rwa [start.unique start', stop.unique stop']
    · exact fun walk => .inr ⟨s, t, start, stop, walk⟩
  have right : (Flow.ofIds ids (ends ++ [(source, target)])).hasCycle = true
      ↔ ReflTransGen (Flow.Links ids ends) t s := by
    rw [Flow.hasCycle_eq_true_iff, more]
    constructor
    · rintro ⟨i, walk⟩
      by_contra apart
      exact IsAcyclic.insert acyclic apart i walk
    · intro walk
      exact ⟨s, .head' (.inr ⟨rfl, rfl⟩) (ReflTransGen.mono (fun _ _ => .inl) _ _ walk)⟩
  rw [Bool.eq_iff_iff, left, right]

/-- A connection from the end of a chain to its beginning closes a circle. The first block, which
has the id of the last one, has no part in it. -/
theorem wouldCloseCycle_chain :
    wouldCloseCycle ["c", "a", "b", "c"]
      (.ofIds ["c", "a", "b", "c"] [("a", "b"), ("a", "b"), ("b", "c")]) "c" "a"
        = (Flow.ofIds ["c", "a", "b", "c"]
          ([("a", "b"), ("a", "b"), ("b", "c")] ++ [("c", "a")])).hasCycle
    ∧ (Flow.ofIds ["c", "a", "b", "c"]
        ([("a", "b"), ("a", "b"), ("b", "c")] ++ [("c", "a")])).hasCycle = true := by
  refine ⟨wouldCloseCycle_eq_hasCycle ?_ (by decide) (by decide), by decide +kernel⟩
  have acyclic : IsAcyclic
      (Flow.ofIds ["c", "a", "b", "c"] [("a", "b"), ("a", "b"), ("b", "c")]).Edge :=
    Flow.hasCycle_eq_false_iff.mp (by decide +kernel)
  exact fun i walk => acyclic i (TransGen.mono (fun _ _ => Flow.edge_ofIds.mpr) _ _ walk)

end StrategyCanvas
