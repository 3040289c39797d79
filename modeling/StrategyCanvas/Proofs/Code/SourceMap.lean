import Mathlib.Data.List.Nodup
import StrategyCanvas.Code.SourceMap
import StrategyCanvas.Proofs.Document.Lookup

/-!
# What grouping marks gives

Marks are grouped by id: every id that has a mark is listed once, ids ascend, and the places of an
id are those of its marks in the order in which they were made (`getD_lookup_group`).
-/

namespace StrategyCanvas.Code.SourceMap

/-! ## Ids -/

@[simp] theorem mem_insertId {id new : String} {known : List String} :
    id ∈ insertId new known ↔ id = new ∨ id ∈ known := by
  induction known with
  | nil => simp [insertId]
  | cons k rest ih =>
    unfold insertId
    split
    · simp
    · split
      · rename_i same
        simp [same]
      · simp [ih, or_left_comm]

theorem pairwise_insertId {known : List String} (h : known.Pairwise (· < ·)) (new : String) :
    (insertId new known).Pairwise (· < ·) := by
  induction known with
  | nil => simp [insertId]
  | cons k rest ih =>
    obtain ⟨first, others⟩ := List.pairwise_cons.mp h
    unfold insertId
    split
    · rename_i below
      rw [List.pairwise_cons, List.forall_mem_cons]
      exact ⟨⟨below, fun id mem => String.lt_trans below (first id mem)⟩, h⟩
    · split
      · exact h
      · rename_i notBelow different
        have above : k < new := String.not_le.mp fun le =>
          different (String.le_antisymm le (String.not_lt.mp notBelow))
        rw [List.pairwise_cons]
        refine ⟨fun id mem => ?_, ih others⟩
        rcases mem_insertId.mp mem with rfl | mem
        · exact above
        · exact first id mem

variable {marks : List (String × Location)} {id : String}

theorem mem_ids : id ∈ ids marks ↔ id ∈ marks.map (·.1) := by
  have grown (known : List String) : id ∈ marks.foldl (fun is m => insertId m.1 is) known
      ↔ id ∈ known ∨ id ∈ marks.map (·.1) := by
    induction marks generalizing known with
    | nil => simp
    | cons m rest ih => simp [ih, or_assoc, or_left_comm]
  simpa [ids] using grown []

theorem pairwise_ids : (ids marks).Pairwise (· < ·) := by
  have grown (known : List String) (h : known.Pairwise (· < ·)) :
      (marks.foldl (fun is m => insertId m.1 is) known).Pairwise (· < ·) := by
    induction marks generalizing known with
    | nil => exact h
    | cons m rest ih => exact ih _ (pairwise_insertId h m.1)
  exact grown [] .nil

theorem nodup_ids : (ids marks).Nodup := by
  refine pairwise_ids.imp fun less same => ?_
  rw [same] at less
  exact String.lt_irrefl _ less

/-! ## Groups -/

@[simp] theorem map_fst_group : (group marks).map (·.1) = ids marks := by
  simp [group, Function.comp_def]

/-- Ids that are told apart and have all the marks are the ids of the groups, up to order. -/
theorem map_fst_group_perm {names : List String} (distinct : names.Nodup)
    (same : ∀ id, id ∈ marks.map (·.1) ↔ id ∈ names) : ((group marks).map (·.1)).Perm names := by
  rw [map_fst_group, List.perm_ext_iff_of_nodup nodup_ids distinct]
  exact fun id => mem_ids.trans (same id)

/-- The places of an id are those of its marks. -/
theorem getD_lookup_group (id : String) :
    ((group marks).lookup id).getD [] = (marks.filter (·.1 = id)).map (·.2) := by
  have listed (names : List String) :
      (names.map fun i => (i, (marks.filter (·.1 = i)).map (·.2))).lookup id
        = if id ∈ names then some ((marks.filter (·.1 = id)).map (·.2)) else none := by
    induction names with
    | nil => simp
    | cons name rest ih =>
      rw [List.map_cons, List.lookup_cons, ih]
      by_cases same : id = name
      · simp [same]
      · simp [same, beq_false_of_ne same]
  rw [group, listed]
  split
  · rfl
  · rename_i absent
    -- an id without marks has no places either
    have none : marks.filter (·.1 = id) = [] := by
      rw [List.filter_eq_nil_iff]
      intro m mem same
      exact absent (mem_ids.mpr (List.mem_map.mpr ⟨m, mem, by simpa using same⟩))
    rw [none]
    rfl

/-- Marks with distinct ids are grouped in the same way in any order. -/
theorem group_perm {marks' : List (String × Location)} (distinct : (marks.map (·.1)).Nodup)
    (perm : marks.Perm marks') : group marks = group marks' := by
  have sameIds : ids marks = ids marks' := by
    have sameMembers : (ids marks).Perm (ids marks') := by
      rw [List.perm_ext_iff_of_nodup nodup_ids nodup_ids]
      intro id
      rw [mem_ids, mem_ids, (perm.map (·.1)).mem_iff]
    refine sameMembers.eq_of_pairwise (fun a b _ _ less more => ?_) pairwise_ids pairwise_ids
    exact absurd (String.lt_trans less more) (String.lt_irrefl _)
  unfold group
  rw [← sameIds]
  refine List.map_congr_left fun id mem => ?_
  obtain ⟨m, listed, rfl⟩ := List.mem_map.mp (mem_ids.mp mem)
  have distinct' : (marks'.map (·.1)).Nodup := (perm.map (·.1)).nodup_iff.mp distinct
  rw [filter_key_eq_singleton distinct listed,
    filter_key_eq_singleton distinct' (perm.mem_iff.mp listed)]

theorem onLine_group_iff {line : Nat} {places : List Location} :
    (id, places) ∈ group marks ∧ onLine line (id, places) = true
      ↔ (∃ l, (id, l) ∈ marks ∧ l.line = line) ∧ places = (marks.filter (·.1 = id)).map (·.2) := by
  constructor
  · rintro ⟨mem, here⟩
    obtain ⟨_, -, entry⟩ := List.mem_map.mp mem
    obtain ⟨rfl, rfl⟩ := Prod.mk.inj entry
    simp only [onLine, List.any_map, List.any_filter, List.any_eq_true, Bool.and_eq_true,
      decide_eq_true_eq, Function.comp_apply] at here
    obtain ⟨⟨i, l⟩, marked, rfl, line⟩ := here
    exact ⟨⟨l, marked, line⟩, rfl⟩
  · rintro ⟨⟨l, marked, line⟩, rfl⟩
    refine ⟨List.mem_map.mpr ⟨id, mem_ids.mpr (List.mem_map_of_mem marked), rfl⟩, ?_⟩
    simp only [onLine, List.any_map, List.any_filter, List.any_eq_true, Bool.and_eq_true,
      decide_eq_true_eq, Function.comp_apply]
    exact ⟨(id, l), marked, rfl, line⟩

/-- A line that has marks of one id only is found to come from it. -/
theorem blockAt?_group {connections : List (String × List Location)} {line : Nat} {l : Location}
    (marked : (id, l) ∈ marks) (here : l.line = line)
    (only : ∀ m ∈ marks, m.2.line = line → m.1 = id) :
    (SourceMap.mk (group marks) connections).blockAt? line = some id := by
  unfold blockAt?
  cases found : (group marks).find? (onLine line) with
  | none =>
    obtain ⟨listed, on⟩ := onLine_group_iff.mpr ⟨⟨l, marked, here⟩, rfl⟩
    exact absurd on (List.find?_eq_none.mp found _ listed)
  | some entry =>
    obtain ⟨other, places⟩ := entry
    obtain ⟨⟨l', marked', line⟩, -⟩ :=
      onLine_group_iff.mp ⟨List.mem_of_find?_eq_some found, List.find?_some found⟩
    rw [Option.map_some, only _ marked' line]

end StrategyCanvas.Code.SourceMap
