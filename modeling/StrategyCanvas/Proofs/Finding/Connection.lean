import StrategyCanvas.Proofs.Document.Lookup
import StrategyCanvas.Proofs.Finding.Rules

/-!
# Admissible connections

The code of a finding depends on the defect alone, and its severity on the code alone. A connection
draws no error exactly if both of its ends resolve to ports of two blocks, of kinds that fit, and no
other connection joins the same ports.
-/

namespace StrategyCanvas

/-! ## Codes and severities -/

/-- Whether findings with the code keep a strategy from being compiled. -/
def FindingCode.isError : FindingCode → Bool
  | .emptyStrategy | .multipleInputs | .noInputBlocks | .orphanedBlock => false
  | _ => true

/-- The code of the finding that reports a defect. -/
def Defect.code : Defect → FindingCode
  | .missingName => .missingName
  | .emptyStrategy => .emptyStrategy
  | .duplicateBlockId .. | .duplicatePortId .. => .duplicateId
  | .missingProperty .. => .missingProperty
  | .invalidPropertyType .. => .invalidPropertyType
  | .propertyOutOfRange .. => .propertyOutOfRange
  | .invalidOption .. => .invalidOption
  | .missingBlock .. | .missingOutput .. | .missingInput .. | .selfConnection .. =>
    .invalidConnection
  | .duplicateConnection .. => .duplicateConnection
  | .typeMismatch .. => .typeMismatch
  | .multipleInputs .. => .multipleInputs
  | .noInputBlocks => .noInputBlocks
  | .noOutputBlocks => .noOutputBlocks
  | .missingConnection .. => .missingConnection
  | .orphanedBlock .. => .orphanedBlock
  | .circularDependency => .circularDependency

@[simp] theorem Defect.code_finding (f : Defect) : f.finding.code = f.code := by
  cases f <;> rfl

@[simp] theorem Defect.isError_finding (f : Defect) : f.finding.isError = f.code.isError := by
  cases f <;> rfl

/-! ## Connections without errors -/

namespace Connection

variable {c : Connection} {blocks : List Block} {existing : List Connection}

/-- Both ends of a connection resolve: to an output of its source block and an input of its target
block. Of several blocks or ports with one id the first one counts. -/
structure Resolves (c : Connection) (blocks : List Block) (source target : Block)
    (output : OutputPort) (input : InputPort) : Prop where
  source_found : blocks.find? (·.id = c.sourceBlockId) = some source
  target_found : blocks.find? (·.id = c.targetBlockId) = some target
  output_found : source.output? c.sourceOutputId = some output
  input_found : target.input? c.targetInputId = some input

/-- A connection from a block to another, of kinds that fit, which repeats none of the existing
ones. -/
def IsAdmissible (c : Connection) (blocks : List Block) (existing : List Connection) : Prop :=
  ∃ source target output input, c.Resolves blocks source target output input
    ∧ source.id ≠ target.id ∧ c.isRepeated existing = false
    ∧ output.dataKind.feeds input.dataKind = true

theorem defects_of_resolves {source target : Block} {output : OutputPort} {input : InputPort}
    (h : c.Resolves blocks source target output input) :
    c.defects blocks existing = c.wireDefects existing source target output input := by
  simp only [defects, h.source_found, h.target_found, h.output_found, h.input_found]

/-- An admissible connection is between blocks that are there. -/
theorem IsAdmissible.ends_mem (h : c.IsAdmissible blocks existing) :
    c.sourceBlockId ∈ blocks.map (·.id) ∧ c.targetBlockId ∈ blocks.map (·.id) := by
  obtain ⟨source, target, _, _, resolves, -⟩ := h
  have known {id : String} {b : Block} (found : blocks.find? (·.id = id) = some b) :
      id ∈ blocks.map (·.id) :=
    List.mem_map.mpr ⟨b, List.mem_of_find?_eq_some found, key_of_find? found⟩
  exact ⟨known resolves.source_found, known resolves.target_found⟩

/-- An admissible connection is between two different blocks. -/
theorem IsAdmissible.ends_ne (h : c.IsAdmissible blocks existing) :
    c.sourceBlockId ≠ c.targetBlockId := by
  obtain ⟨source, target, _, _, resolves, others, -⟩ := h
  have sourceId : source.id = c.sourceBlockId := key_of_find? resolves.source_found
  have targetId : target.id = c.targetBlockId := key_of_find? resolves.target_found
  rwa [← sourceId, ← targetId]

/-- An admissible connection draws at most a warning that it shares its input. -/
theorem IsAdmissible.code_eq (h : c.IsAdmissible blocks existing) {f : Defect}
    (mem : f ∈ c.defects blocks existing) : f.code = .multipleInputs := by
  obtain ⟨source, target, output, input, resolves, others, fresh, fits⟩ := h
  rw [defects_of_resolves resolves] at mem
  simp only [wireDefects, others, fresh, fits, if_true, if_false, Bool.false_eq_true,
    List.nil_append] at mem
  split at mem
  · rw [List.mem_singleton.mp mem]
    rfl
  · contradiction

theorem isAdmissible_iff :
    c.IsAdmissible blocks existing ↔ ∀ f ∈ c.defects blocks existing, f.code.isError = false := by
  constructor
  · intro h f mem
    rw [h.code_eq mem]
    rfl
  · intro sound
    -- an end that does not resolve is an error of its own
    cases hs : blocks.find? (·.id = c.sourceBlockId) with
    | none => simp [defects, hs, Defect.code, FindingCode.isError] at sound
    | some source =>
      cases ht : blocks.find? (·.id = c.targetBlockId) with
      | none => simp [defects, hs, ht, Defect.code, FindingCode.isError] at sound
      | some target =>
        cases ho : source.output? c.sourceOutputId with
        | none =>
          simp [defects, hs, ht, ho, portDefects, Defect.code, FindingCode.isError] at sound
        | some output =>
          cases hi : target.input? c.targetInputId with
          | none =>
            simp [defects, hs, ht, ho, hi, portDefects, Defect.code, FindingCode.isError] at sound
          | some input =>
            have resolves : c.Resolves blocks source target output input := ⟨hs, ht, ho, hi⟩
            rw [defects_of_resolves resolves] at sound
            simp only [wireDefects, List.mem_append] at sound
            refine ⟨source, target, output, input, resolves, ?_, ?_, ?_⟩
            · intro same
              have := sound _ (.inl (.inl (.inl (by rw [if_pos same]; exact List.mem_cons_self))))
              contradiction
            · by_contra repeated
              rw [Bool.not_eq_false] at repeated
              have := sound _
                (.inl (.inl (.inr (by rw [if_pos repeated]; exact List.mem_cons_self))))
              contradiction
            · by_contra unfit
              have := sound _ (.inl (.inr (by rw [if_neg unfit]; exact List.mem_cons_self)))
              contradiction

/-- A connection is refused for no error exactly if it is admissible. -/
theorem errors_eq_nil_iff :
    (c.findings blocks existing).filter (·.isError) = [] ↔ c.IsAdmissible blocks existing := by
  rw [isAdmissible_iff, findings_eq, List.filter_eq_nil_iff]
  simp

end Connection

end StrategyCanvas
