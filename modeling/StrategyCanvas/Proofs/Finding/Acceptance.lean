import StrategyCanvas.Proofs.Document.Lookup
import StrategyCanvas.Proofs.Finding.Report

/-!
# Which strategies draw no error

A strategy with blocks draws no error exactly if it is acceptable: ids are distinct, every property
is settled, every connection joins two blocks and repeats no earlier one, something can be observed
from outside, required inputs are fed, and nothing runs in a circle (`error_free_iff`). Validation
looks at parts in the order of the document, so each part is described by what it adds to those
before it. Of a coherent strategy, whose ids, properties, connections and order are as they should
be, only the flow of data can be found fault with (`IsCoherent.mem_flowDefects`).
-/

namespace StrategyCanvas

/-! ## Properties -/

namespace Property

/-- A property has no value, where blank text counts as none. -/
def IsUnset (p : Property) : Prop :=
  p.value = none ∨ ∃ s, p.value = some (.text s) ∧ ∀ c ∈ s.toList, Text.isBlank c = true

/-- A value is of the kind of the property. A number is finite and neither below the least nor above
the greatest one, and a selection is one of the options, if there are any. -/
structure Suits (p : Property) (v : PropertyValue) : Prop where
  fits : v.fits p.kind = true
  number : ∀ x, v = .number x → x.isFinite = true ∧ (∀ min, p.min = some min → ¬ x < min)
    ∧ ∀ max, p.max = some max → ¬ max < x
  selection : ∀ s, v = .text s → p.kind = .select → p.options ≠ [] →
    ∃ option ∈ p.options, option.value = s

/-- A property has a value that suits it, or it has none and needs none. -/
def IsSettled (p : Property) : Prop :=
  p.IsUnset ∧ p.required = false ∨ ¬ p.IsUnset ∧ ∃ v, p.value = some v ∧ p.Suits v

variable {p : Property} {b : Block} {v : PropertyValue}

/-- A property has no value that counts exactly if it is unset. -/
theorem given?_eq_none_iff : p.given? = none ↔ p.IsUnset := by
  unfold given? IsUnset
  cases p.value with
  | none => simp
  | some v => cases v <;> simp [PropertyValue.isEmpty, Text.isBlankText]

theorem value_of_given? (h : p.given? = some v) : p.value = some v := by
  unfold given? at h
  split at h
  · split at h
    · contradiction
    · rwa [← h]
  · contradiction

/-- A number is admitted if it is finite and within the bounds that there are. -/
theorem admits_iff {x : Float} : p.admits x = true ↔ x.isFinite = true
    ∧ (∀ min, p.min = some min → ¬ x < min) ∧ ∀ max, p.max = some max → ¬ max < x := by
  unfold admits
  cases p.min <;> cases p.max <;> simp [and_comm]

theorem not_selects_iff {s : String} :
    (p.kind = .select && !p.options.isEmpty && !p.options.any (·.value = s)) = false
      ↔ (p.kind = .select → p.options ≠ [] → ∃ option ∈ p.options, option.value = s) := by
  cases p.options with
  | nil => simp
  | cons o rest => by_cases first : o.value = s <;> simp [first]

/-- Nothing is wrong with a value exactly if it suits the property. -/
theorem defect?_of_given? (h : p.given? = some v) : p.defect? b = none ↔ p.Suits v := by
  unfold defect?
  rw [h]
  dsimp only
  cases fits : v.fits p.kind with
  | false =>
    simp only [Bool.not_false, if_true, reduceCtorEq, false_iff]
    intro suits
    rw [suits.fits] at fits
    contradiction
  | true =>
    simp only [Bool.not_true, Bool.false_eq_true, if_false]
    cases v with
    | number x =>
      simp only [ite_eq_left_iff, reduceCtorEq, imp_false, not_not, admits_iff]
      refine ⟨fun inside => ⟨fits, ?_, by simp⟩, fun suits => suits.number x rfl⟩
      rintro y ⟨⟩
      exact inside
    | text s =>
      simp only [ite_eq_right_iff, reduceCtorEq, imp_false, Bool.not_eq_true, not_selects_iff]
      refine ⟨fun known => ⟨fits, by simp, ?_⟩, fun suits => suits.selection s rfl⟩
      rintro t ⟨⟩
      exact known
    | boolean => simpa using ⟨fits, by simp, by simp⟩

/-- Nothing is wrong with a property exactly if it is settled. -/
theorem defect?_eq_none_iff : p.defect? b = none ↔ p.IsSettled := by
  cases given : p.given? with
  | none =>
    have unset := given?_eq_none_iff.mp given
    simp [defect?, given, IsSettled, unset]
  | some v =>
    have set : ¬ p.IsUnset := by
      rw [← given?_eq_none_iff, given]
      simp
    rw [defect?_of_given? given]
    simp [IsSettled, set, value_of_given? given]

/-- A value that is present is missing exactly if it is empty. -/
theorem isUnset_iff (value : p.value = some v) : p.IsUnset ↔ v.isEmpty = true := by
  rw [← given?_eq_none_iff, given?, value]
  simp

/-- A settled property has a suitable value, if it has one that counts. -/
theorem IsSettled.suits (h : p.IsSettled) (value : p.value = some v) (filled : v.isEmpty = false) :
    p.Suits v := by
  rcases h with ⟨unset, -⟩ | ⟨-, v', value', suits⟩
  · rw [isUnset_iff value, filled] at unset
    contradiction
  · rw [value] at value'
    obtain rfl := Option.some.inj value'
    exact suits

/-- A settled property may be empty only if it is not required. -/
theorem IsSettled.required_eq_false (h : p.IsSettled) (value : p.value = some v)
    (empty : v.isEmpty = true) : p.required = false := by
  rcases h with ⟨-, free⟩ | ⟨set, -⟩
  · exact free
  · exact absurd ((isUnset_iff value).mpr empty) set

/-- Whatever is wrong with a property is an error. -/
theorem isError_of_defect? {f : Defect} (h : p.defect? b = some f) : f.code.isError = true := by
  rcases code_of_defect? h with code | code | code | ⟨code, -⟩ <;> rw [code] <;> rfl

end Property

/-! ## Blocks -/

/-- Blocks draw no error exactly if their ids are distinct and their properties settled. -/
theorem blocks_error_free_iff {blocks : List Block} :
    (∀ f ∈ collectInOrder Block.defects [] blocks, f.code.isError = false)
      ↔ DistinctIds blocks ∧ ∀ b ∈ blocks, ∀ p ∈ b.properties, p.IsSettled := by
  constructor
  · intro free
    refine ⟨duplicateId_free_iff.mp fun f mem code => ?_, fun b known p mem => ?_⟩
    · have harmless := free f mem
      rw [code] at harmless
      contradiction
    · rw [← Property.defect?_eq_none_iff (b := b), Option.eq_none_iff_forall_ne_some]
      intro f found
      obtain ⟨front, back, split⟩ := List.append_of_mem known
      have here : f ∈ b.defects ([] ++ front) :=
        List.mem_append_right _ (List.mem_filterMap.mpr ⟨p, mem, found⟩)
      have harmless := free f (mem_collectInOrder_iff.mpr ⟨front, b, back, split, here⟩)
      rw [Property.isError_of_defect? found] at harmless
      contradiction
  · rintro ⟨distinct, settled⟩ f mem
    have new := duplicateId_free_iff.mpr distinct f mem
    obtain ⟨front, b, back, split, here⟩ := mem_collectInOrder_iff.mp mem
    rcases Block.code_of_mem_defects here with code | ⟨p, known, found⟩
    · contradiction
    · have present : b ∈ blocks := by simp [split]
      rw [Property.defect?_eq_none_iff.mpr (settled b present p known)] at found
      contradiction

/-! ## Connections -/

namespace Connection

variable {c : Connection} {blocks : List Block} {existing : List Connection}

/-- A connection leads from an output of a block to an input of another block, of kinds that fit. -/
def Joins (c : Connection) (blocks : List Block) : Prop :=
  ∃ source ∈ blocks, ∃ target ∈ blocks, ∃ output ∈ source.outputs, ∃ input ∈ target.inputs,
    source.id = c.sourceBlockId ∧ target.id = c.targetBlockId ∧ source.id ≠ target.id
    ∧ output.id = c.sourceOutputId ∧ input.id = c.targetInputId
    ∧ output.dataKind.feeds input.dataKind = true

/-- A connection with another id joins the same ports. -/
def Repeats (c e : Connection) : Prop :=
  e.id ≠ c.id ∧ e.sourceOutputId = c.sourceOutputId ∧ e.targetInputId = c.targetInputId

/-- The source of a connection is one of the blocks. -/
theorem Joins.source_mem (h : c.Joins blocks) : c.sourceBlockId ∈ blocks.map (·.id) := by
  obtain ⟨source, mem, -, -, -, -, -, -, id, -⟩ := h
  exact List.mem_map.mpr ⟨source, mem, id⟩

/-- A connection is new if no other one with another id joins the same ports. -/
theorem isRepeated_eq_false_iff :
    c.isRepeated existing = false ↔ ∀ e ∈ existing, ¬ c.Repeats e := by
  simp [isRepeated, sameEndpoints, Repeats]

/-- Where ids are distinct, the ends of a connection are the only ones with their ids. -/
theorem isAdmissible_iff_joins (distinct : DistinctIds blocks) : c.IsAdmissible blocks existing
    ↔ c.Joins blocks ∧ ∀ e ∈ existing, ¬ c.Repeats e := by
  have ports {b : Block} (mem : b ∈ blocks) : b.portIds.Nodup :=
    (List.nodup_flatMap.mp distinct.2).1 b mem
  constructor
  · rintro ⟨source, target, output, input, resolves, others, fresh, feeds⟩
    refine ⟨⟨source, List.mem_of_find?_eq_some resolves.source_found,
      target, List.mem_of_find?_eq_some resolves.target_found,
      output, List.mem_of_find?_eq_some resolves.output_found,
      input, List.mem_of_find?_eq_some resolves.input_found,
      key_of_find? resolves.source_found, key_of_find? resolves.target_found, others,
      key_of_find? resolves.output_found, key_of_find? resolves.input_found, feeds⟩, ?_⟩
    exact isRepeated_eq_false_iff.mp fresh
  · rintro ⟨⟨source, hs, target, ht, output, ho, input, hi, sourceId, targetId, others, outputId,
      inputId, feeds⟩, fresh⟩
    have inputs := (ports ht).of_append_left
    have outputs := (ports hs).of_append_right
    exact ⟨source, target, output, input,
      ⟨(find?_key_eq_some_iff distinct.1).mpr ⟨hs, sourceId⟩,
        (find?_key_eq_some_iff distinct.1).mpr ⟨ht, targetId⟩,
        (find?_key_eq_some_iff outputs).mpr ⟨ho, outputId⟩,
        (find?_key_eq_some_iff inputs).mpr ⟨hi, inputId⟩⟩,
      others, isRepeated_eq_false_iff.mpr fresh, feeds⟩

/-- Connections draw no error exactly if each joins two blocks and repeats none before it. -/
theorem error_free_iff (distinct : DistinctIds blocks) {connections : List Connection} :
    (∀ f ∈ collectInOrder (fun before c => c.defects blocks before) [] connections,
        f.code.isError = false)
      ↔ (∀ c ∈ connections, c.Joins blocks)
        ∧ connections.Pairwise fun e c => ¬ c.Repeats e := by
  refine forall_collectInOrder_iff
    (P := fun cs : List Connection =>
      (∀ c ∈ cs, c.Joins blocks) ∧ cs.Pairwise fun e c => ¬ c.Repeats e)
    (fun before c met => ?_) ?_ ⟨by simp, .nil⟩
  · obtain ⟨joined, apart⟩ := met
    rw [← isAdmissible_iff, isAdmissible_iff_joins distinct, List.pairwise_append]
    simp only [List.mem_append, List.mem_singleton, or_imp, forall_and, forall_eq,
      List.pairwise_singleton, apart, true_and, and_congr_left_iff]
    exact fun _ => (and_iff_right joined).symm
  · rintro before after ⟨joined, apart⟩
    exact ⟨fun c mem => joined c (List.mem_append_left _ mem), (List.pairwise_append.mp apart).1⟩

end Connection

/-! ## Strategies -/

namespace Definition

variable {d : Definition}

/-- What a strategy with blocks has to meet, apart from its name. -/
structure IsAcceptable (d : Definition) : Prop where
  blockIds : (d.blocks.map (·.id)).Nodup
  portIds : (d.blocks.flatMap (·.portIds)).Nodup
  settled : ∀ b ∈ d.blocks, ∀ p ∈ b.properties, p.IsSettled
  joined : ∀ c ∈ d.connections, c.Joins d.blocks
  apart : d.connections.Pairwise fun e c => ¬ c.Repeats e
  effect : ∃ b ∈ d.blocks, b.category = .action ∨ b.category = .output
  fed : ∀ b ∈ d.blocks, ∀ p ∈ b.inputs, p.required = true →
    ∃ c ∈ d.connections, c.targetBlockId = b.id ∧ c.targetInputId = p.id
  acyclic : IsAcyclic d.Feeds

/-- What remains to be met if nothing has to be observed or fed. -/
structure IsCoherent (d : Definition) : Prop where
  blockIds : (d.blocks.map (·.id)).Nodup
  portIds : (d.blocks.flatMap (·.portIds)).Nodup
  settled : ∀ b ∈ d.blocks, ∀ p ∈ b.properties, p.IsSettled
  joined : ∀ c ∈ d.connections, c.Joins d.blocks
  apart : d.connections.Pairwise fun e c => ¬ c.Repeats e
  acyclic : IsAcyclic d.Feeds

/-- An acceptable strategy is coherent. -/
theorem IsAcceptable.isCoherent (h : d.IsAcceptable) : d.IsCoherent :=
  ⟨h.blockIds, h.portIds, h.settled, h.joined, h.apart, h.acyclic⟩

theorem IsCoherent.distinctIds (h : d.IsCoherent) : DistinctIds d.blocks := ⟨h.blockIds, h.portIds⟩

/-- What is gravely wrong with a coherent strategy that has a name is wrong with its flow of data.
-/
theorem IsCoherent.mem_flowDefects (h : d.IsCoherent) (named : Text.isBlankText d.name = false)
    {f : Defect} (defect : d.HasDefect f) (grave : f.code.isError = true) : f ∈ d.flowDefects := by
  cases defect with
  | name blank =>
    rw [named] at blank
    contradiction
  | empty | orphan => contradiction
  | @block front back b _ split here =>
    have harmless := blocks_error_free_iff.mpr ⟨h.distinctIds, h.settled⟩ f
      (mem_collectInOrder_iff.mpr ⟨front, b, back, split, here⟩)
    rw [harmless] at grave
    contradiction
  | @connection front back c _ some split here =>
    have harmless := (Connection.error_free_iff h.distinctIds).mpr ⟨h.joined, h.apart⟩ f
      (mem_collectInOrder_iff.mpr ⟨front, c, back, split, here⟩)
    rw [harmless] at grave
    contradiction
  | flow some mem => exact mem
  | circle some cycle =>
    rw [hasCycle, Flow.hasCycle_eq_false_iff.mpr (isAcyclic_flow h.acyclic)] at cycle
    contradiction

/-- Blocks of two categories have an effect. -/
theorem hasEffect_iff {category : Category} :
    category.hasEffect = true ↔ category = .action ∨ category = .output := by
  cases category <;> simp [Category.hasEffect]

/-- An input is fed if a connection leads there. -/
theorem isFed_iff {blockId inputId : String} : d.isFed blockId inputId = true
    ↔ ∃ c ∈ d.connections, c.targetBlockId = blockId ∧ c.targetInputId = inputId := by
  simp [isFed]

/-- Two things are gravely wrong with a flow of data: nothing can be observed, or a required input
is not fed. -/
theorem flow_error_iff {f : Defect} : f ∈ d.flowDefects ∧ f.code.isError = true
    ↔ f = .noOutputBlocks ∧ d.blocks.any (·.category.hasEffect) = false
      ∨ ∃ b ∈ d.blocks, ∃ p ∈ b.inputs, p.required = true ∧ d.isFed b.id p.id = false
        ∧ f = .missingConnection b.id b.name p.name := by
  simp only [flowDefects, List.mem_append, List.mem_flatMap]
  constructor
  · rintro ⟨(mem | mem) | ⟨b, known, mem⟩, grave⟩
    · split at mem
      · contradiction
      · rw [List.mem_singleton.mp mem] at grave
        contradiction
    · split at mem
      · contradiction
      · rename_i silent
        exact .inl ⟨List.mem_singleton.mp mem, Bool.eq_false_iff.mpr silent⟩
    · obtain ⟨p, here, rfl⟩ := List.mem_map.mp mem
      obtain ⟨port, unfed⟩ := List.mem_filter.mp here
      rw [Bool.and_eq_true, Bool.not_eq_true'] at unfed
      exact .inr ⟨b, known, p, port, unfed.1, unfed.2, rfl⟩
  · rintro (⟨rfl, silent⟩ | ⟨b, known, p, port, required, unfed, rfl⟩)
    · exact ⟨.inl (.inr (by simp [silent])), rfl⟩
    · refine ⟨.inr ⟨b, known, List.mem_map.mpr ⟨p, List.mem_filter.mpr ⟨port, ?_⟩, rfl⟩⟩, rfl⟩
      rw [required, unfed]
      rfl

/-- The flow of data draws no error exactly if something can be observed and required inputs are
fed. -/
theorem flow_error_free_iff : (∀ f ∈ d.flowDefects, f.code.isError = false)
    ↔ (∃ b ∈ d.blocks, b.category = .action ∨ b.category = .output)
      ∧ ∀ b ∈ d.blocks, ∀ p ∈ b.inputs, p.required = true →
        ∃ c ∈ d.connections, c.targetBlockId = b.id ∧ c.targetInputId = p.id := by
  have effect : (d.blocks.any (·.category.hasEffect)) = true
      ↔ ∃ b ∈ d.blocks, b.category = .action ∨ b.category = .output := by
    simp [hasEffect_iff]
  rw [← effect]
  simp only [← isFed_iff]
  constructor
  · intro free
    have harmless {f : Defect} : ¬ (f ∈ d.flowDefects ∧ f.code.isError = true) := by
      rintro ⟨mem, grave⟩
      rw [free f mem] at grave
      contradiction
    constructor
    · by_contra silent
      exact harmless (flow_error_iff.mpr (.inl ⟨rfl, Bool.eq_false_iff.mpr silent⟩))
    · intro b mem p port required
      by_contra unfed
      exact harmless (flow_error_iff.mpr
        (.inr ⟨b, mem, p, port, required, Bool.eq_false_iff.mpr unfed, rfl⟩))
  · rintro ⟨observed, fed⟩ f mem
    by_contra grave
    rcases flow_error_iff.mp ⟨mem, Bool.not_eq_false _ ▸ grave⟩ with
      ⟨-, silent⟩ | ⟨b, known, p, port, required, unfed, -⟩
    · rw [observed] at silent
      contradiction
    · rw [fed b known p port required] at unfed
      contradiction

/-- A strategy with blocks draws no error exactly if it has a name and is acceptable. -/
theorem error_free_iff (some : d.blocks ≠ []) : d.report.hasErrors = false
    ↔ Text.isBlankText d.name = false ∧ d.IsAcceptable := by
  rw [hasErrors_eq_false_iff]
  constructor
  · intro free
    obtain ⟨distinct, settled⟩ := blocks_error_free_iff.mp fun f mem => by
      obtain ⟨front, b, back, split, here⟩ := mem_collectInOrder_iff.mp mem
      exact free f (.block split here)
    obtain ⟨joined, apart⟩ := (Connection.error_free_iff distinct).mp fun f mem => by
      obtain ⟨front, c, back, split, here⟩ := mem_collectInOrder_iff.mp mem
      exact free f (.connection some split here)
    obtain ⟨effect, fed⟩ := flow_error_free_iff.mp fun f mem => free f (.flow some mem)
    refine ⟨?_, distinct.1, distinct.2, settled, joined, apart, effect, fed, ?_⟩
    · by_contra blank
      have harmless := free .missingName (.name (by simpa using blank))
      contradiction
    · refine isAcyclic_feeds (fun c mem => (joined c mem).source_mem) ?_
      rw [← Flow.hasCycle_eq_false_iff]
      by_contra cycle
      have harmless := free .circularDependency (.circle some (by simpa [hasCycle] using cycle))
      contradiction
  · rintro ⟨named, acceptable⟩ f defect
    by_contra grave
    rw [Bool.not_eq_false] at grave
    have mem := acceptable.isCoherent.mem_flowDefects named defect grave
    rw [flow_error_free_iff.mpr ⟨acceptable.effect, acceptable.fed⟩ f mem] at grave
    contradiction

/-- Without blocks there is nothing to look at but the name. -/
theorem error_free_of_isEmpty (none : d.blocks = []) :
    d.report.hasErrors = false ↔ Text.isBlankText d.name = false := by
  rw [hasErrors_eq_false_iff]
  constructor
  · intro free
    by_contra blank
    have harmless := free .missingName (.name (by simpa using blank))
    contradiction
  · rintro named f defect
    cases defect with
    | name blank =>
      rw [named] at blank
      contradiction
    | empty => rfl
    | block split => simp [none] at split
    | connection some => exact absurd none some
    | flow some => exact absurd none some
    | orphan mem => simp [none] at mem
    | circle some => exact absurd none some

/-- With or without blocks, a strategy that draws no error has a name, and is acceptable if it has
blocks. -/
theorem harmless_iff : d.report.hasErrors = false
    ↔ Text.isBlankText d.name = false ∧ (d.blocks = [] ∨ d.IsAcceptable) := by
  by_cases none : d.blocks = []
  · simp [error_free_of_isEmpty none, none]
  · simp [error_free_iff none, none]

/-- A report has no errors exactly if the strategy has a name with a character that is not blank,
and has no blocks or meets all that is asked of blocks and connections. -/
theorem hasErrors_report_eq_false_iff (d : Definition) : d.report.hasErrors = false
    ↔ (∃ c ∈ d.name.toList, Text.isBlank c = false) ∧ (d.blocks = [] ∨ d.IsAcceptable) := by
  have named : Text.isBlankText d.name = false ↔ ∃ c ∈ d.name.toList, Text.isBlank c = false := by
    simp [Text.isBlankText]
  rw [← named]
  exact harmless_iff

end Definition

end StrategyCanvas
