import Mathlib.Data.List.Flatten
import Mathlib.Data.List.Nodup
import StrategyCanvas.Proofs.Document.Lookup
import StrategyCanvas.Proofs.Finding.Connection
import StrategyCanvas.Proofs.Flow.Cycle

/-!
# What a report without errors says

Blocks and connections are looked at in the light of those before them, so a report speaks of pairs
of elements although every element is met once. It names no id twice exactly if the ids of blocks
and ports are distinct (`duplicateId_free_iff`). A strategy without errors is sound: its ids are
distinct, its connections are admissible and its data flow is acyclic (`isSound_of_hasErrors`).
-/

namespace StrategyCanvas

/-! ## Looking at elements in order -/

section Collect

variable {α β : Type} {say : List α → α → List β} {before as : List α} {x : β}

/-- What is said about a list is said about some element, given those before it. -/
theorem mem_collectInOrder_iff : x ∈ collectInOrder say before as ↔
    ∃ front a back, as = front ++ a :: back ∧ x ∈ say (before ++ front) a := by
  induction as generalizing before with
  | nil => simp [collectInOrder]
  | cons b rest ih =>
    rw [collectInOrder, List.mem_append, ih]
    constructor
    · rintro (first | ⟨front, a, back, rfl, later⟩)
      · exact ⟨[], b, rest, rfl, by rwa [List.append_nil]⟩
      · exact ⟨b :: front, a, back, rfl, by rwa [List.append_assoc] at later⟩
    · rintro ⟨front, a, back, split, said⟩
      cases front with
      | nil =>
        obtain ⟨rfl, rfl⟩ := List.cons.inj split
        rw [List.append_nil] at said
        exact .inl said
      | cons c front =>
        obtain ⟨rfl, rfl⟩ := List.cons.inj split
        exact .inr ⟨front, a, back, rfl, by rwa [List.append_assoc]⟩

/-- If an element is accepted exactly when the elements up to it have a property, a list is accepted
exactly when all of it has. -/
theorem forall_collectInOrder_iff {P : List α → Prop} {good : β → Prop}
    (step : ∀ before a, P before → ((∀ x ∈ say before a, good x) ↔ P (before ++ [a])))
    (initial : ∀ before after, P (before ++ after) → P before) (start : P before) :
    (∀ x ∈ collectInOrder say before as, good x) ↔ P (before ++ as) := by
  -- the property of the elements so far goes along as `before` grows
  induction as generalizing before with
  | nil => simpa [collectInOrder] using start
  | cons b rest ih =>
    have assoc : before ++ b :: rest = (before ++ [b]) ++ rest := by simp
    simp only [collectInOrder, List.mem_append, or_imp, forall_and]
    rw [step before b start, assoc]
    constructor
    · rintro ⟨here, later⟩
      exact (ih here).mp later
    · intro all
      have here : P (before ++ [b]) := initial _ rest all
      exact ⟨here, (ih here).mpr all⟩

end Collect

/-- No id is repeated if none occurs twice and none has been seen before. -/
theorem repeatsOf_eq_nil_iff {seen ids : List String} :
    repeatsOf seen ids = [] ↔ ids.Nodup ∧ ∀ id ∈ ids, id ∉ seen := by
  induction ids generalizing seen with
  | nil => simp [repeatsOf]
  | cons id rest ih =>
    rw [repeatsOf]
    split
    · rename_i known
      simp [known]
    · rename_i new
      rw [ih, List.nodup_cons]
      -- later ids may now repeat neither what was seen nor `id`
      constructor
      · rintro ⟨nodup, apart⟩
        refine ⟨⟨fun mem => apart id mem List.mem_cons_self, nodup⟩, fun k mem => ?_⟩
        rcases List.mem_cons.mp mem with rfl | mem
        · exact new
        · exact fun old => apart k mem (List.mem_cons_of_mem id old)
      · rintro ⟨⟨single, nodup⟩, apart⟩
        refine ⟨nodup, fun k mem => ?_⟩
        rw [List.mem_cons, not_or]
        exact ⟨fun same => single (same ▸ mem), apart k (List.mem_cons_of_mem id mem)⟩

/-! ## Blocks -/

/-- The codes of what can be wrong with a property. -/
theorem Property.code_of_defect? {p : Property} {b : Block} {f : Defect}
    (h : p.defect? b = some f) :
    f.code = .missingProperty ∨ f.code = .propertyOutOfRange ∨ f.code = .invalidOption
      ∨ f.code = .invalidPropertyType ∧ ∃ v, p.value = some v ∧ v.fits p.kind = false := by
  unfold defect? at h
  split at h
  · split at h
    · obtain rfl := Option.some.inj h
      exact .inl rfl
    · contradiction
  · rename_i v given
    split at h
    · rename_i unfit
      obtain rfl := Option.some.inj h
      refine .inr (.inr (.inr ⟨rfl, v, ?_, by simpa using unfit⟩))
      unfold given? at given
      split at given
      · rename_i value
        split at given
        · contradiction
        · rw [value, given]
      · contradiction
    · split at h
      · split at h
        · contradiction
        · obtain rfl := Option.some.inj h
          exact .inr (.inl rfl)
      · split at h
        · obtain rfl := Option.some.inj h
          exact .inr (.inr (.inl rfl))
        · contradiction
      · contradiction

/-- What is wrong with a block is a repeated id or one of its properties. -/
theorem Block.code_of_mem_defects {before : List Block} {b : Block} {f : Defect}
    (h : f ∈ b.defects before) :
    f.code = .duplicateId ∨ ∃ p ∈ b.properties, p.defect? b = some f := by
  simp only [defects, List.mem_append] at h
  rcases h with (h | h) | h
  · split at h
    · rw [List.mem_singleton.mp h]
      exact .inl rfl
    · contradiction
  · obtain ⟨id, -, rfl⟩ := List.mem_map.mp h
    exact .inl rfl
  · exact .inr (List.mem_filterMap.mp h)

/-- No property repeats an id. -/
theorem Property.code_ne_duplicateId {p : Property} {b : Block} {f : Defect}
    (h : p.defect? b = some f) : f.code ≠ .duplicateId := by
  rcases code_of_defect? h with code | code | code | ⟨code, -⟩ <;> rw [code] <;> decide

/-- The ids of blocks are distinct, and so are those of all their ports. -/
def DistinctIds (blocks : List Block) : Prop :=
  (blocks.map (·.id)).Nodup ∧ (blocks.flatMap (·.portIds)).Nodup

/-- One more block keeps ids distinct if its own are new and distinct. -/
theorem distinctIds_append_singleton {before : List Block} {b : Block} :
    DistinctIds (before ++ [b]) ↔ DistinctIds before ∧ b.id ∉ before.map (·.id)
      ∧ b.portIds.Nodup ∧ ∀ id ∈ b.portIds, id ∉ before.flatMap (·.portIds) := by
  have disjoint : (before.flatMap (·.portIds)).Disjoint b.portIds
      ↔ ∀ id ∈ b.portIds, id ∉ before.flatMap (·.portIds) := by
    rw [List.disjoint_comm]
    exact Iff.rfl
  have single : (before.map (·.id)).Disjoint [b.id] ↔ b.id ∉ before.map (·.id) :=
    List.disjoint_singleton
  simp only [DistinctIds, List.map_append, List.flatMap_append, List.nodup_append', List.map_cons,
    List.map_nil, List.flatMap_cons, List.flatMap_nil, List.append_nil, disjoint, single,
    List.nodup_singleton, true_and]
  tauto

/-- A block repeats no id exactly if its own are new and distinct. -/
theorem Block.duplicateId_free_iff {before : List Block} {b : Block} :
    (∀ f ∈ b.defects before, f.code ≠ .duplicateId) ↔ b.id ∉ before.map (·.id)
      ∧ b.portIds.Nodup ∧ ∀ id ∈ b.portIds, id ∉ before.flatMap (·.portIds) := by
  rw [← repeatsOf_eq_nil_iff]
  have blockId : before.any (·.id = b.id) = true ↔ b.id ∈ before.map (·.id) := by simp
  constructor
  · intro free
    refine ⟨fun mem => ?_, ?_⟩
    · refine free (.duplicateBlockId b.id) ?_ rfl
      simp only [defects, blockId.mpr mem, if_true, List.mem_append, List.mem_singleton, true_or]
    · rw [List.eq_nil_iff_forall_not_mem]
      intro id mem
      refine free (.duplicatePortId b.id id) ?_ rfl
      simp only [defects, List.mem_append, List.mem_map]
      exact .inl (.inr ⟨id, mem, rfl⟩)
  · rintro ⟨new, none⟩ f mem
    rw [← blockId, Bool.not_eq_true] at new
    simp only [defects, new, none, Bool.false_eq_true, if_false, List.map_nil,
      List.nil_append] at mem
    obtain ⟨p, -, found⟩ := List.mem_filterMap.mp mem
    exact Property.code_ne_duplicateId found

/-- No id is reported twice exactly if all ids are distinct. -/
theorem duplicateId_free_iff {blocks : List Block} :
    (∀ f ∈ collectInOrder Block.defects [] blocks, f.code ≠ .duplicateId)
      ↔ DistinctIds blocks := by
  have start : DistinctIds [] := ⟨List.nodup_nil, List.nodup_nil⟩
  refine forall_collectInOrder_iff (P := DistinctIds) (fun before b distinct => ?_) ?_ start
  · rw [Block.duplicateId_free_iff, distinctIds_append_singleton]
    exact (and_iff_right distinct).symm
  · intro before b distinct
    obtain ⟨ids, ports⟩ := distinct
    rw [List.map_append] at ids
    rw [List.flatMap_append] at ports
    exact ⟨ids.of_append_left, ports.of_append_left⟩

/-- The inputs of a block have distinct ids. -/
theorem DistinctIds.nodup_inputs {blocks : List Block} (h : DistinctIds blocks) {b : Block}
    (mem : b ∈ blocks) : (b.inputs.map (·.id)).Nodup :=
  ((List.nodup_flatMap.mp h.2).1 b mem).sublist (List.sublist_append_left _ _)

/-- The outputs of all blocks have distinct ids. -/
theorem DistinctIds.nodup_outputs {blocks : List Block} (h : DistinctIds blocks) :
    ((blocks.flatMap (·.outputs)).map (·.id)).Nodup := by
  have sublist : (blocks.flatMap fun b => b.outputs.map (·.id)).Sublist
      (blocks.flatMap (·.portIds)) :=
    List.Sublist.flatMap_right blocks fun b _ => List.sublist_append_right _ _
  rw [List.map_flatMap]
  exact h.2.sublist sublist

/-! ## Strategies -/

/-- What is wrong with a strategy, by where it shows. -/
inductive Definition.HasDefect (d : Definition) : Defect → Prop
  | name : Text.isBlankText d.name = true → HasDefect d .missingName
  | empty : d.blocks = [] → HasDefect d .emptyStrategy
  | block {front back : List Block} {b : Block} {f : Defect} :
      d.blocks = front ++ b :: back → f ∈ b.defects front → HasDefect d f
  | connection {front back : List Connection} {c : Connection} {f : Defect} : d.blocks ≠ [] →
      d.connections = front ++ c :: back → f ∈ c.defects d.blocks front → HasDefect d f
  | flow {f : Defect} : d.blocks ≠ [] → f ∈ d.flowDefects → HasDefect d f
  | orphan {b : Block} : b ∈ d.blocks → d.isOrphaned b = true →
      HasDefect d (.orphanedBlock b.id b.name)
  | circle : d.blocks ≠ [] → d.hasCycle = true → HasDefect d .circularDependency

namespace Definition

variable {d : Definition} {f : Defect}

theorem hasDefect_of_mem_canvasDefects (some : d.blocks ≠ []) (h : f ∈ d.canvasDefects) :
    d.HasDefect f := by
  simp only [canvasDefects_by_rules, List.mem_append] at h
  rcases h with (((h | h) | h) | h) | h
  · obtain ⟨front, b, back, split, here⟩ := mem_collectInOrder_iff.mp h
    exact .block split here
  · obtain ⟨front, c, back, split, here⟩ := mem_collectInOrder_iff.mp h
    exact .connection some split here
  · exact .flow some h
  · obtain ⟨b, mem, rfl⟩ := List.mem_map.mp h
    obtain ⟨mem, orphaned⟩ := List.mem_filter.mp mem
    exact .orphan mem orphaned
  · split at h
    · rename_i cycle
      obtain rfl := List.mem_singleton.mp h
      exact .circle some cycle
    · contradiction

/-- Everything that is wrong is reported. -/
theorem HasDefect.mem (h : d.HasDefect f) : f ∈ d.defects := by
  -- a defect of the canvas counts as there are blocks
  have canvas : d.blocks ≠ [] → f ∈ d.canvasDefects → f ∈ d.defects := by
    intro some mem
    refine List.mem_append_right _ ?_
    rwa [if_neg (by simpa using some)]
  cases h with
  | name blank =>
    refine List.mem_append_left _ ?_
    rw [if_pos blank]
    exact List.mem_cons_self
  | empty none =>
    refine List.mem_append_right _ ?_
    rw [if_pos (by simpa using none)]
    exact List.mem_cons_self
  | @block front back b _ split here =>
    refine canvas (by simp [split]) ?_
    have mem : f ∈ collectInOrder Block.defects [] d.blocks :=
      mem_collectInOrder_iff.mpr ⟨front, b, back, split, here⟩
    simp [canvasDefects_by_rules, mem]
  | @connection front back c _ some split here =>
    have mem : f ∈ d.connectionDefects :=
      mem_collectInOrder_iff.mpr ⟨front, c, back, split, here⟩
    exact canvas some (by simp [canvasDefects_by_rules, mem])
  | flow some mem => exact canvas some (by simp [canvasDefects_by_rules, mem])
  | @orphan b mem orphaned =>
    refine canvas (List.ne_nil_of_mem mem) ?_
    have listed : .orphanedBlock b.id b.name ∈ (d.blocks.filter d.isOrphaned).map
        (fun b => Defect.orphanedBlock b.id b.name) :=
      List.mem_map.mpr ⟨b, List.mem_filter.mpr ⟨mem, orphaned⟩, rfl⟩
    simp [canvasDefects_by_rules, listed]
  | circle some cycle => exact canvas some (by simp [canvasDefects_by_rules, cycle])

/-- Exactly what is wrong is reported. -/
theorem mem_defects_iff : f ∈ d.defects ↔ d.HasDefect f := by
  constructor
  · intro h
    rcases List.mem_append.mp h with h | h
    · split at h
      · rename_i blank
        obtain rfl := List.mem_singleton.mp h
        exact .name blank
      · contradiction
    · split at h
      · rename_i none
        obtain rfl := List.mem_singleton.mp h
        exact .empty (by simpa using none)
      · rename_i some
        exact hasDefect_of_mem_canvasDefects (by simpa using some) h
  · exact HasDefect.mem

/-- Without errors all findings are warnings. -/
theorem warnings_eq_issues (h : d.report.hasErrors = false) :
    d.report.warnings = d.report.issues := by
  rw [Report.hasErrors, List.any_eq_false] at h
  rw [Report.warnings, List.filter_eq_self]
  simpa using h

/-- There are no errors exactly if nothing that is wrong is an error. -/
theorem hasErrors_eq_false_iff :
    d.report.hasErrors = false ↔ ∀ f, d.HasDefect f → f.code.isError = false := by
  simp [Report.hasErrors, report, findings, ← mem_defects_iff]

/-- The codes of what can be wrong with the flow of data. -/
theorem code_of_mem_flowDefects (h : f ∈ d.flowDefects) :
    f.code = .noInputBlocks ∨ f.code = .noOutputBlocks ∨ f.code = .missingConnection := by
  simp only [flowDefects, unfedInputs, List.mem_append, List.mem_flatMap, List.mem_map] at h
  rcases h with (h | h) | ⟨b, -, p, -, rfl⟩
  · split at h
    · contradiction
    · rw [List.mem_singleton.mp h]
      exact .inl rfl
  · split at h
    · contradiction
    · rw [List.mem_singleton.mp h]
      exact .inr (.inl rfl)
  · exact .inr (.inr rfl)

/-! ## Sound strategies -/

/-- The ids of a strategy are distinct, its connections are admissible, each in the light of those
before it, and its data flow is acyclic. Nobody looks at the connections of an empty strategy. -/
structure IsSound (d : Definition) : Prop where
  distinct : DistinctIds d.blocks
  admissible : d.blocks ≠ [] → ∀ front c back, d.connections = front ++ c :: back →
    c.IsAdmissible d.blocks front
  acyclic : IsAcyclic d.flow.Edge

/-- The connections of a sound strategy with blocks are between its blocks. -/
theorem IsSound.ends_mem (h : d.IsSound) (some : d.blocks ≠ []) {c : Connection}
    (mem : c ∈ d.connections) : c.sourceBlockId ∈ d.blockIds ∧ c.targetBlockId ∈ d.blockIds := by
  obtain ⟨front, back, split⟩ := List.append_of_mem mem
  exact (h.admissible some front c back split).ends_mem

/-- Without blocks there is nothing that could be unsound. -/
theorem isSound_of_isEmpty (none : d.blocks = []) : d.IsSound := by
  refine ⟨?_, fun some => absurd none some, fun i => ?_⟩
  · rw [none]
    exact ⟨List.nodup_nil, List.nodup_nil⟩
  · have empty : d.blockIds.length = 0 := by simp [blockIds, none]
    exact absurd i.isLt (by omega)

/-- A strategy without errors is sound. -/
theorem isSound_of_hasErrors (h : d.report.hasErrors = false) : d.IsSound := by
  by_cases none : d.blocks = []
  · exact isSound_of_isEmpty none
  · rw [hasErrors_eq_false_iff] at h
    refine ⟨duplicateId_free_iff.mp fun f mem code => ?_, fun _ front c back split => ?_, ?_⟩
    · obtain ⟨front, b, back, split, here⟩ := mem_collectInOrder_iff.mp mem
      have sound := h f (.block split here)
      rw [code] at sound
      contradiction
    · exact Connection.isAdmissible_iff.mpr fun f here => h f (.connection none split here)
    · rw [← Flow.hasCycle_eq_false_iff]
      by_contra cycle
      have circular : d.hasCycle = true := by simpa [hasCycle] using cycle
      have sound := h .circularDependency (.circle none circular)
      contradiction

/-- What validation finds in a sound strategy speaks neither of ids nor of connections nor of
cycles, and calls the type of a value wrong only if it is. -/
theorem IsSound.code_of_hasDefect (h : d.IsSound) (defect : d.HasDefect f) :
    f.code ∉ [.duplicateId, .invalidConnection, .duplicateConnection, .typeMismatch,
      .circularDependency] ∧ (f.code = .invalidPropertyType →
        ∃ b ∈ d.blocks, ∃ p ∈ b.properties, ∃ v, p.value = some v ∧ v.fits p.kind = false) := by
  cases defect with
  | name | empty | orphan => simp [Defect.code]
  | @block front back b _ split here =>
    have new : f.code ≠ .duplicateId := duplicateId_free_iff.mpr h.distinct f
      (mem_collectInOrder_iff.mpr ⟨front, b, back, split, here⟩)
    rcases Block.code_of_mem_defects here with code | ⟨p, mem, found⟩
    · contradiction
    · rcases Property.code_of_defect? found with code | code | code | ⟨code, misfit⟩
      · simp [code]
      · simp [code]
      · simp [code]
      · refine ⟨by simp [code], fun _ => ⟨b, by simp [split], p, mem, misfit⟩⟩
  | @connection front back c _ some split here =>
    have code := (h.admissible some front c back split).code_eq here
    simp [code]
  | flow some mem =>
    rcases code_of_mem_flowDefects mem with code | code | code <;> simp [code]
  | circle some cycle =>
    rw [hasCycle, Flow.hasCycle_eq_false_iff.mpr h.acyclic] at cycle
    contradiction

end Definition

end StrategyCanvas
