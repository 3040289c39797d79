import StrategyCanvas.Proofs.Flow.Schedule

/-!
# Nodes without edges

An id that is added at the end and that no edge names leaves all other positions, and hence all
edges, as they were (`map_edges_ofIds_append`). Its node is ready from the start, but as it has the
greatest position it is taken last (`Greedy.widen`): the execution order goes on behind its old end
(`map_val_order_ofIds_append`).
-/

namespace StrategyCanvas.Flow

variable {n : Nat} {g : Flow n} {done order : List (Fin n)} {ids : List String} {id : String}

/-! ## Positions -/

/-- Other ids keep their positions. -/
theorem position?_append_singleton {other : String} (apart : other ≠ id) :
    (position? (ids ++ [id]) other).map Fin.val = (position? ids other).map Fin.val := by
  induction ids with
  | nil => simp [position?, Ne.symm apart]
  | cons a rest ih =>
    show (position? (a :: (rest ++ [id])) other).map Fin.val = _
    simp only [position?]
    cases found : position? rest other with
    | some i =>
      rw [found] at ih
      obtain ⟨j, found', equal⟩ := Option.map_eq_some_iff.mp ih
      rw [found']
      simp [equal]
    | none =>
      rw [found] at ih
      rw [Option.map_eq_none_iff.mp ih]
      by_cases first : a = other <;> simp [first]

/-- Edges between other ids stay where they are. -/
theorem map_edges_ofIds_append {ends : List (String × String)}
    (apart : ∀ e ∈ ends, e.1 ≠ id ∧ e.2 ≠ id) :
    (ofIds (ids ++ [id]) ends).edges.map (Prod.map Fin.val Fin.val)
      = (ofIds ids ends).edges.map (Prod.map Fin.val Fin.val) := by
  rw [ofIds, ofIds, List.map_filterMap, List.map_filterMap]
  refine List.filterMap_congr fun e mem => ?_
  rw [map_edge?, map_edge?, position?_append_singleton (apart e mem).1,
    position?_append_singleton (apart e mem).2]

/-! ## Orders -/

/-- The same graph with one more node, which has no edges. -/
def widen (g : Flow n) : Flow (n + 1) := ⟨g.edges.map (Prod.map Fin.castSucc Fin.castSucc)⟩

theorem edge_widen_iff {i j : Fin (n + 1)} :
    g.widen.Edge i j ↔ ∃ a b, g.Edge a b ∧ a.castSucc = i ∧ b.castSucc = j := by
  simp [widen, Edge]

theorem castSucc_mem_iff {i : Fin n} : i.castSucc ∈ done.map Fin.castSucc ↔ i ∈ done :=
  List.mem_map_of_injective (Fin.castSucc_injective n)

theorem isReady_castSucc_iff {i : Fin n} :
    g.widen.IsReady (done.map Fin.castSucc) i.castSucc ↔ g.IsReady done i := by
  simp only [IsReady, castSucc_mem_iff, edge_widen_iff]
  refine and_congr_right fun _ => ⟨fun before j edge => ?_, ?_⟩
  · exact castSucc_mem_iff.mp (before _ ⟨j, i, edge, rfl, rfl⟩)
  · rintro before _ ⟨j, k, edge, rfl, same⟩
    obtain rfl := Fin.castSucc_injective n same
    exact castSucc_mem_iff.mpr (before j edge)

/-- The new node waits for nothing. -/
theorem isReady_last : g.widen.IsReady (done.map Fin.castSucc) (Fin.last n) := by
  refine ⟨fun mem => ?_, fun j edge => ?_⟩
  · obtain ⟨i, -, same⟩ := List.mem_map.mp mem
    exact Fin.castSucc_ne_last i same
  · obtain ⟨a, b, -, -, same⟩ := edge_widen_iff.mp edge
    exact absurd same (Fin.castSucc_ne_last b)

/-- The new node is taken last, as the least of the ready ones is always an old one. -/
theorem Greedy.widen (h : Greedy g done order) (full : ∀ i, i ∈ done ∨ i ∈ order) :
    Greedy g.widen (done.map Fin.castSucc) (order.map Fin.castSucc ++ [Fin.last n]) := by
  induction h with
  | @stop done stuck =>
    -- all old nodes are in order, so the new one is all that is left
    have all (i : Fin n) : i ∈ done := (full i).resolve_right List.not_mem_nil
    refine .next isReady_last (fun j ready => ?_) (.stop fun j ready => ?_)
    · cases j using Fin.lastCases with
      | last => exact le_rfl
      | cast i => exact absurd (castSucc_mem_iff.mpr (all i)) ready.1
    · cases j using Fin.lastCases with
      | last => exact ready.1 List.mem_cons_self
      | cast i => exact ready.1 (List.mem_cons_of_mem _ (castSucc_mem_iff.mpr (all i)))
  | @next done rest i ready least _ ih =>
    -- an old node is ready, and every old node is less than the new one
    have later (k : Fin n) : k ∈ i :: done ∨ k ∈ rest := by
      rcases full k with mem | mem
      · exact .inl (List.mem_cons_of_mem i mem)
      · rcases List.mem_cons.mp mem with rfl | mem
        · exact .inl List.mem_cons_self
        · exact .inr mem
    refine .next (isReady_castSucc_iff.mpr ready) (fun j free => ?_) (ih later)
    cases j using Fin.lastCases with
    | last => exact Fin.le_last _
    | cast k => exact Fin.castSucc_le_castSucc_iff.mpr (least k (isReady_castSucc_iff.mp free))

/-- The execution order goes on with the new node behind its old end. -/
theorem order_widen (h : g.order = .ok order) :
    g.widen.order = .ok (order.map Fin.castSucc ++ [Fin.last n]) := by
  obtain ⟨executes, greedy⟩ := order_eq_ok h
  have full (i : Fin n) : i ∈ [] ∨ i ∈ order :=
    .inr (executes.perm.mem_iff.mpr (List.mem_finRange i))
  -- there is one greedy order only, so this is the one that counting down finds
  obtain ⟨result, -, greedy', eq⟩ := exists_greedy g.widen
  have ordered : result.ordered = order.map Fin.castSucc ++ [Fin.last n] :=
    greedy'.unique (greedy.widen full)
  have length : result.ordered.length = n + 1 := by
    rw [ordered, List.length_append, List.length_map, executes.perm.length_eq,
      List.length_finRange, List.length_singleton]
  rw [eq, if_neg (by omega), ordered]

/-- An id at the end that no edge names comes last in the execution order. -/
theorem map_val_order_ofIds_append {ends : List (String × String)}
    (apart : ∀ e ∈ ends, e.1 ≠ id ∧ e.2 ≠ id) {order : List (Fin ids.length)}
    (h : (ofIds ids ends).order = .ok order) :
    (ofIds (ids ++ [id]) ends).order.toOption.map (List.map Fin.val)
      = some (order.map Fin.val ++ [ids.length]) := by
  have size : (ids ++ [id]).length = ids.length + 1 := List.length_append
  have edges : (ofIds (ids ++ [id]) ends).edges.map (Prod.map Fin.val Fin.val)
      = (ofIds ids ends).widen.edges.map (Prod.map Fin.val Fin.val) := by
    rw [map_edges_ofIds_append apart, Flow.widen, List.map_map]
    rfl
  rw [toOption_order_congr size edges, order_widen h]
  simp [Except.toOption, Function.comp_def]

end StrategyCanvas.Flow
