import Mathlib.Data.Fintype.Card
import Mathlib.Logic.Relation
import Mathlib.Order.WellFounded
import StrategyCanvas.Flow.Basic

/-!
# Walks and cycles

A relation is acyclic if no walk of at least one step leads back to its start. On finitely many
points every non-empty set then has a member without predecessors in it, and a new edge closes a
cycle only where a walk already leads from its end to its start. The edges of a data flow are such a
relation on positions, and the connections of a strategy one on ids.
-/

namespace StrategyCanvas

open Relation

/-! ## Acyclic relations -/

/-- No walk of at least one step leads back to its start. -/
def IsAcyclic {α : Type} (r : α → α → Prop) : Prop := ∀ a, ¬ TransGen r a a

section Acyclic

variable {α β : Type} {r r' : α → α → Prop}

theorem IsAcyclic.mono (acyclic : IsAcyclic r) (h : ∀ a b, r' a b → r a b) : IsAcyclic r' := by
  intro a walk
  exact acyclic a (TransGen.mono h _ _ walk)

/-- A map of walks takes cycles to cycles. -/
theorem IsAcyclic.of_map {q : β → β → Prop} (acyclic : IsAcyclic q) (f : α → β)
    (h : ∀ a b, r a b → q (f a) (f b)) : IsAcyclic r := by
  intro a walk
  exact acyclic (f a) (TransGen.lift f h _ _ walk)

/-- On finitely many points, a non-empty set has a member without predecessors in it. -/
theorem IsAcyclic.exists_first [Finite α] (acyclic : IsAcyclic r) {s : Set α}
    (nonempty : s.Nonempty) : ∃ a ∈ s, ∀ b ∈ s, ¬ r b a := by
  -- walks are a strict order, and those are well-founded on finitely many points
  have trans : IsTrans α (TransGen r) := ⟨fun _ _ _ first second => first.trans second⟩
  have irrefl : Std.Irrefl (TransGen r) := ⟨acyclic⟩
  have wellFounded : WellFounded (TransGen r) := Finite.wellFounded_of_trans_of_irrefl _
  obtain ⟨a, mem, least⟩ := wellFounded.has_min s nonempty
  exact ⟨a, mem, fun b hb step => least b hb (.single step)⟩

/-- On finitely many points, a point from which one can go back forever is on a cycle or behind
one. -/
theorem exists_cycle_of_forall_pred [Finite α] {s : Set α} (back : ∀ a ∈ s, ∃ b ∈ s, r b a) {a : α}
    (mem : a ∈ s) : ∃ b, TransGen r b b ∧ ReflTransGen r b a := by
  by_contra none
  simp only [not_exists, not_and] at none
  -- among the points from which a walk leads to `a` there would be a first one
  have acyclic : IsAcyclic fun b c => ReflTransGen r c a ∧ r b c := by
    intro b walk
    obtain ⟨_, -, toward, step⟩ := TransGen.tail'_iff.mp walk
    exact none b (TransGen.mono (fun _ _ edge => edge.2) _ _ walk) toward
  obtain ⟨b, ⟨known, walk⟩, first⟩ :=
    acyclic.exists_first (s := {b | b ∈ s ∧ ReflTransGen r b a}) ⟨a, mem, .refl⟩
  obtain ⟨c, known', step⟩ := back b known
  exact first c ⟨known', .head step walk⟩ ⟨walk, step⟩

/-- A walk through one more edge avoids the edge, or passes it. -/
theorem transGen_insert {s t x y : α} (walk : TransGen (fun a b => r a b ∨ a = s ∧ b = t) x y) :
    TransGen r x y ∨ ReflTransGen r x s ∧ ReflTransGen r t y := by
  induction walk with
  | single step =>
    rcases step with step | ⟨rfl, rfl⟩
    · exact .inl (.single step)
    · exact .inr ⟨.refl, .refl⟩
  | tail _ step ih =>
    rcases step with step | ⟨rfl, rfl⟩
    · rcases ih with old | ⟨before, after⟩
      · exact .inl (old.tail step)
      · exact .inr ⟨before, after.tail step⟩
    · rcases ih with old | ⟨before, -⟩
      · exact .inr ⟨old.to_reflTransGen, .refl⟩
      · exact .inr ⟨before, .refl⟩

/-- One more edge closes no cycle if no walk leads from its end to its start. -/
theorem IsAcyclic.insert {s t : α} (acyclic : IsAcyclic r) (h : ¬ ReflTransGen r t s) :
    IsAcyclic fun a b => r a b ∨ a = s ∧ b = t := by
  intro a walk
  rcases transGen_insert walk with old | ⟨before, after⟩
  · exact acyclic a old
  · exact h (after.trans before)

/-- A walk along one more edge that leads back to its start needs no such edge. -/
theorem reflTransGen_of_insert {s t : α}
    (walk : ReflTransGen (fun a b => r a b ∨ a = s ∧ b = t) t s) : ReflTransGen r t s := by
  rcases reflTransGen_iff_eq_or_transGen.mp walk with rfl | walk
  · exact .refl
  · rcases transGen_insert walk with old | ⟨before, -⟩
    · exact old.to_reflTransGen
    · exact before

/-- A walk along edges of two kinds keeps to the first kind, or passes an edge of the second. -/
theorem reflTransGen_or {x y : α} (walk : ReflTransGen (fun a b => r a b ∨ r' a b) x y) :
    ReflTransGen r x y ∨ ∃ s t, r' s t ∧ ReflTransGen (fun a b => r a b ∨ r' a b) x s
      ∧ ReflTransGen (fun a b => r a b ∨ r' a b) t y := by
  induction walk with
  | refl => exact .inl .refl
  | tail before step ih =>
    rcases step with old | new
    · rcases ih with walk | ⟨s, t, edge, first, second⟩
      · exact .inl (walk.tail old)
      · exact .inr ⟨s, t, edge, first, second.tail (.inl old)⟩
    · exact .inr ⟨_, _, new, before, .refl⟩

end Acyclic

/-! ## Data flows -/

namespace Flow

variable {n : Nat}

/-- There is an edge from one node to the other. -/
def Edge (g : Flow n) (i j : Fin n) : Prop := (i, j) ∈ g.edges

@[simp] theorem mem_successors {g : Flow n} {i j : Fin n} : j ∈ g.successors i ↔ g.Edge i j := by
  simp [successors, Edge]

/-! ## Positions of ids -/

/-- An id stands for the last position that carries it. -/
def IsLast (ids : List String) (id : String) (i : Fin ids.length) : Prop :=
  ids.get i = id ∧ ∀ j, i < j → ids.get j ≠ id

/-- One of the pairs of ids leads from one position to the other. -/
def Links (ids : List String) (ends : List (String × String)) (i j : Fin ids.length) : Prop :=
  ∃ e ∈ ends, IsLast ids e.1 i ∧ IsLast ids e.2 j

theorem position?_eq_none_iff {ids : List String} {id : String} :
    position? ids id = none ↔ id ∉ ids := by
  induction ids with
  | nil => simp [position?]
  | cons a rest ih =>
    simp only [position?]
    split
    · rename_i i found
      have : id ∈ rest := by
        by_contra absent
        rw [ih.mpr absent] at found
        contradiction
      simp [this]
    · rename_i found
      have absent := ih.mp found
      by_cases same : a = id
      · simp [same]
      · simp [same, absent, Ne.symm same]

theorem position?_eq_some_iff {ids : List String} {id : String} {i : Fin ids.length} :
    position? ids id = some i ↔ IsLast ids id i := by
  induction ids with
  | nil => exact i.elim0
  | cons a rest ih =>
    simp only [position?]
    split
    · rename_i k found
      have last := ih.mp found
      constructor
      · rintro h
        obtain rfl := Option.some.inj h
        refine ⟨last.1, fun j less => ?_⟩
        obtain ⟨j, rfl⟩ := Fin.exists_succ_eq.mpr (Fin.ne_zero_of_lt less)
        exact last.2 j (Fin.succ_lt_succ_iff.mp less)
      · rintro ⟨here, later⟩
        -- a position before that of `k` would not be the last one
        rcases Fin.eq_zero_or_eq_succ i with rfl | ⟨j, rfl⟩
        · exact absurd last.1 (later k.succ (Fin.succ_pos k))
        · have last' : IsLast rest id j :=
            ⟨here, fun m less => later m.succ (Fin.succ_lt_succ_iff.mpr less)⟩
          rw [ih.mpr last'] at found
          rw [Option.some.inj found]
    · rename_i found
      have absent : id ∉ rest := position?_eq_none_iff.mp found
      have elsewhere (m : Fin rest.length) : rest.get m ≠ id := by
        intro here
        exact absent (here ▸ List.get_mem rest m)
      split
      · rename_i same
        constructor
        · rintro h
          obtain rfl := Option.some.inj h
          refine ⟨same, fun j less => ?_⟩
          obtain ⟨j, rfl⟩ := Fin.exists_succ_eq.mpr (Fin.ne_zero_of_lt less)
          exact elsewhere j
        · rintro ⟨here, -⟩
          rcases Fin.eq_zero_or_eq_succ i with rfl | ⟨j, rfl⟩
          · rfl
          · exact absurd here (elsewhere j)
      · rename_i different
        constructor
        · intro h
          contradiction
        · rintro ⟨here, -⟩
          rcases Fin.eq_zero_or_eq_succ i with rfl | ⟨j, rfl⟩
          · exact absurd here different
          · exact absurd here (elsewhere j)

theorem IsLast.unique {ids : List String} {id : String} {i j : Fin ids.length}
    (hi : IsLast ids id i) (hj : IsLast ids id j) : i = j := by
  rw [← position?_eq_some_iff] at hi hj
  rw [hi] at hj
  exact Option.some.inj hj

theorem exists_isLast {ids : List String} {id : String} (h : id ∈ ids) : ∃ i, IsLast ids id i := by
  cases found : position? ids id with
  | none => exact absurd h (position?_eq_none_iff.mp found)
  | some i => exact ⟨i, position?_eq_some_iff.mp found⟩

/-- If ids are distinct, a position is the last one of its id. -/
theorem isLast_get {ids : List String} (distinct : ids.Nodup) (i : Fin ids.length) :
    IsLast ids (ids.get i) i := by
  refine ⟨rfl, fun j less same => ?_⟩
  rw [List.nodup_iff_injective_get.mp distinct same] at less
  exact Nat.lt_irrefl _ less

theorem edge?_eq_some_iff {ids : List String} {ends : String × String} {i j : Fin ids.length} :
    edge? ids ends = some (i, j) ↔ IsLast ids ends.1 i ∧ IsLast ids ends.2 j := by
  rw [← position?_eq_some_iff, ← position?_eq_some_iff]
  unfold edge?
  split
  · rename_i s t hs ht
    simp [hs, ht]
  · rename_i missing
    constructor
    · intro h
      contradiction
    · rintro ⟨hs, ht⟩
      exact absurd ht (missing i j hs)

/-- An id keeps its position when ids are renamed, if no other id is given its name. -/
theorem position?_map {f : String → String} {ids : List String} {id : String}
    (apart : ∀ a ∈ ids, f a = f id → a = id) :
    (position? (ids.map f) (f id)).map Fin.val = (position? ids id).map Fin.val := by
  induction ids with
  | nil => rfl
  | cons a rest ih =>
    obtain ⟨here, later⟩ := List.forall_mem_cons.mp apart
    have same := ih later
    show (position? (f a :: rest.map f) (f id)).map Fin.val = _
    simp only [position?]
    cases found : position? rest id with
    | some i =>
      rw [found] at same
      obtain ⟨j, found', equal⟩ := Option.map_eq_some_iff.mp same
      rw [found']
      simp [equal]
    | none =>
      rw [found] at same
      rw [Option.map_eq_none_iff.mp same]
      by_cases first : a = id
      · simp [first]
      · have first' : f a ≠ f id := fun equal => first (here equal)
        simp [first, first']

/-- An edge is a pair of positions. -/
theorem map_edge? (ids : List String) (e : String × String) :
    (edge? ids e).map (Prod.map Fin.val Fin.val) = ((position? ids e.1).map Fin.val).bind fun s =>
      ((position? ids e.2).map Fin.val).map (s, ·) := by
  unfold edge?
  cases position? ids e.1 <;> cases position? ids e.2 <;> rfl

/-- Renaming ids moves no edge, if no id is given the name of an end of another edge. -/
theorem map_edges_ofIds {f : String → String} {ids : List String} {ends : List (String × String)}
    (apart : ∀ e ∈ ends, ∀ a ∈ ids, (f a = f e.1 → a = e.1) ∧ (f a = f e.2 → a = e.2)) :
    (ofIds (ids.map f) (ends.map (Prod.map f f))).edges.map (Prod.map Fin.val Fin.val)
      = (ofIds ids ends).edges.map (Prod.map Fin.val Fin.val) := by
  have one : ∀ e ∈ ends, (edge? (ids.map f) (Prod.map f f e)).map (Prod.map Fin.val Fin.val)
      = (edge? ids e).map (Prod.map Fin.val Fin.val) := by
    intro e mem
    have source := position?_map fun a ha => (apart e mem a ha).1
    have target := position?_map fun a ha => (apart e mem a ha).2
    rw [map_edge?, map_edge?, ← source, ← target]
    rfl
  rw [ofIds, ofIds, List.filterMap_map, List.map_filterMap, List.map_filterMap]
  exact List.filterMap_congr one

/-- The edges are the links between positions. -/
@[simp] theorem edge_ofIds {ids : List String} {ends : List (String × String)}
    {i j : Fin ids.length} : (ofIds ids ends).Edge i j ↔ Links ids ends i j := by
  simp only [Edge, ofIds, Links, List.mem_filterMap, edge?_eq_some_iff]

theorem edge_ofIds_eq (ids : List String) (ends : List (String × String)) :
    (ofIds ids ends).Edge = Links ids ends := by
  ext i j
  exact edge_ofIds

end Flow

/-! ## Connections -/

/-- A connection leads from the block of one id to the block of the other. -/
def Definition.Feeds (d : Definition) (source target : String) : Prop :=
  ∃ c ∈ d.connections, c.sourceBlockId = source ∧ c.targetBlockId = target

/-- The data flow of a strategy is acyclic if its connections are. -/
theorem Definition.isAcyclic_flow {d : Definition} (acyclic : IsAcyclic d.Feeds) :
    IsAcyclic d.flow.Edge := by
  refine acyclic.of_map d.blockIds.get fun i j edge => ?_
  obtain ⟨e, mem, source, target⟩ := Flow.edge_ofIds.mp edge
  obtain ⟨c, hc, rfl⟩ := List.mem_map.mp mem
  exact ⟨c, hc, source.1.symm, target.1.symm⟩

namespace Definition

variable {d : Definition}

/-- A connection between present blocks is an edge between their positions. -/
theorem edge_of_feeds {source target : String} (h : d.Feeds source target)
    {i j : Fin d.blockIds.length} (start : Flow.IsLast d.blockIds source i)
    (stop : Flow.IsLast d.blockIds target j) : d.flow.Edge i j := by
  obtain ⟨c, mem, rfl, rfl⟩ := h
  exact Flow.edge_ofIds.mpr ⟨c.ends, List.mem_map_of_mem mem, start, stop⟩

/-- If connections lead from present blocks, a walk between present ids is one between their
positions. -/
theorem walk_of_feeds (present : ∀ c ∈ d.connections, c.sourceBlockId ∈ d.blockIds)
    {source target : String} {i : Fin d.blockIds.length} (start : Flow.IsLast d.blockIds source i)
    (walk : ReflTransGen d.Feeds source target) {j : Fin d.blockIds.length}
    (stop : Flow.IsLast d.blockIds target j) : ReflTransGen d.flow.Edge i j := by
  induction walk generalizing j with
  | refl =>
    rw [Flow.IsLast.unique start stop]
  | tail _ step ih =>
    obtain ⟨c, mem, rfl, rfl⟩ := step
    obtain ⟨k, middle⟩ := Flow.exists_isLast (present c mem)
    exact (ih middle).tail (edge_of_feeds ⟨c, mem, rfl, rfl⟩ middle stop)

/-- The connections between present blocks are acyclic if the data flow is. -/
theorem isAcyclic_feeds (present : ∀ c ∈ d.connections, c.sourceBlockId ∈ d.blockIds)
    (acyclic : IsAcyclic d.flow.Edge) : IsAcyclic d.Feeds := by
  intro id walk
  have start : id ∈ d.blockIds := by
    obtain ⟨_, ⟨c, mem, rfl, -⟩, -⟩ := TransGen.head'_iff.mp walk
    exact present c mem
  obtain ⟨i, first⟩ := Flow.exists_isLast start
  -- the source of the last step is present as well, and from there an edge leads back
  obtain ⟨last, walk, step⟩ := TransGen.tail'_iff.mp walk
  have middle : last ∈ d.blockIds := by
    obtain ⟨c, mem, rfl, -⟩ := step
    exact present c mem
  obtain ⟨k, middle⟩ := Flow.exists_isLast middle
  have back : TransGen d.flow.Edge i i :=
    TransGen.tail' (walk_of_feeds present first walk middle) (edge_of_feeds step middle first)
  exact acyclic i back

end Definition

end StrategyCanvas
