import StrategyCanvas.Proofs.Catalog.Standard
import StrategyCanvas.Proofs.Code.Compile
import StrategyCanvas.Proofs.Edit.WellFormed

/-!
# Editing with the standard catalog

What an editor makes with the standard catalog is sound: its conditions on every change imply what
validation looks for in the whole. And since the standard templates are regular, nothing but an
error that validation reports keeps such a strategy from being compiled.
-/

namespace StrategyCanvas

open Code

namespace Definition

variable {d : Definition}

/-! ## Well-formed strategies are sound -/

theorem IsWellFormed.isAdmissible (h : d.IsWellFormed) {front back : List Connection}
    {c : Connection} (split : d.connections = front ++ c :: back) :
    c.IsAdmissible d.blocks front := by
  have mem : c ∈ d.connections := by simp [split]
  obtain ⟨source, hs, target, ht, output, input, sourceId, targetId, others, ho, hi, -, feeds⟩ :=
    h.fits c mem
  have resolves : c.Resolves d.blocks source target output input :=
    ⟨(find?_key_eq_some_iff h.blockIds).mpr ⟨hs, sourceId⟩,
      (find?_key_eq_some_iff h.blockIds).mpr ⟨ht, targetId⟩, ho, hi⟩
  refine ⟨source, target, output, input, resolves, others, ?_, feeds⟩
  -- a connection that was repeated would share both ends with an earlier one
  have ends := h.ends
  rw [split, List.pairwise_append] at ends
  rw [Connection.isRepeated, List.any_eq_false]
  intro before earlier repeated
  simp only [Connection.sameEndpoints, Bool.and_eq_true, decide_eq_true_eq] at repeated
  exact ends.2.2 before earlier c List.mem_cons_self repeated.2

/-- A well-formed strategy is sound if the ids of its ports are distinct. -/
theorem IsWellFormed.isSound (h : d.IsWellFormed) (ports : (d.blocks.flatMap (·.portIds)).Nodup) :
    d.IsSound :=
  ⟨⟨h.blockIds, ports⟩, fun _ _ _ _ split => h.isAdmissible split, isAcyclic_flow h.acyclic⟩

/-! ## Sessions -/

/-- A strategy whose blocks stem from standard templates and hold values that fit. -/
def IsStandard (d : Definition) : Prop :=
  ∀ b ∈ d.blocks, (∃ t ∈ Catalog.standard.templates, b.StemsFrom t) ∧ b.HoldsFitting

theorem isStandard_serveAll (h : d.IsStandard) (edits : List Edit) :
    (d.serveAll (edits.map (.edit .standard))).IsStandard := by
  refine forall_blocks_serveAll (fun type blockId position b placed => ?_) ?_ h
  · obtain ⟨t, mem, rfl⟩ := Block.exists_stemsFrom_of_place placed
    exact ⟨⟨t, mem, Block.stemsFrom_place t blockId position⟩,
      Block.holdsFitting_place (Template.isRegular_of_mem_standard mem).fitting blockId position⟩
  · rintro b b' ⟨⟨t, mem, stem⟩, fitting⟩ revised
    exact ⟨⟨t, mem, stem.of_revised revised⟩, fitting.of_revised revised⟩

theorem IsStandard.isSound (h : d.IsStandard) (wellFormed : d.IsWellFormed) : d.IsSound := by
  refine wellFormed.isSound (Block.nodup_portIds wellFormed.blockIds fun b mem => ?_)
  obtain ⟨⟨t, known, stem⟩, -⟩ := h b mem
  have regular := Template.isRegular_of_mem_standard known
  exact ⟨t, stem, regular.inputs, regular.outputs⟩

/-- The findings that editing with the standard catalog rules out. -/
theorem IsStandard.hasCode_eq_false (h : d.IsStandard) (sound : d.IsSound) {code : FindingCode}
    (ruledOut : code ∈ [.duplicateId, .invalidPropertyType, .invalidConnection,
      .duplicateConnection, .typeMismatch, .circularDependency]) :
    d.report.hasCode code = false := by
  rw [Report.hasCode, List.any_eq_false]
  intro finding mem same
  obtain ⟨f, defect, rfl⟩ := List.mem_map.mp mem
  obtain ⟨structural, typed⟩ := sound.code_of_hasDefect (mem_defects_iff.mp defect)
  rw [Defect.code_finding, decide_eq_true_eq] at same
  subst same
  -- a wrong type needs a value that does not fit, which no block holds
  by_cases misfit : f.code = .invalidPropertyType
  · obtain ⟨b, known, p, mem, v, given, unfit⟩ := typed misfit
    rw [(h b known).2 p mem v given] at unfit
    contradiction
  · simp only [List.mem_cons, List.not_mem_nil, or_false] at ruledOut structural
    tauto

theorem IsStandard.exists_emissions (h : d.IsStandard) (sound : d.IsSound) (catalog : Catalog) :
    ∃ es, emissions catalog d = .ok es := by
  refine (exists_emissions_iff sound).mpr fun b mem => ?_
  obtain ⟨⟨t, known, stem⟩, -⟩ := h b mem
  have regular := Template.isRegular_of_mem_standard known
  exact ⟨stem.isPlannable regular, stem.isComplete regular catalog⟩

/-- Editing a new strategy with the standard catalog never leads to a finding about ids, types of
values, connections or cycles. What it leads to is compiled if validation finds no error, and
otherwise refused for exactly the errors that validation finds. -/
theorem compileDefault_serveAll (id name createdBy : String) (now : Time.Instant)
    (edits : List Edit) :
    let d := (new id name createdBy now).serveAll (edits.map (.edit .standard))
    (∀ code ∈ [FindingCode.duplicateId, .invalidPropertyType, .invalidConnection,
      .duplicateConnection, .typeMismatch, .circularDependency], d.report.hasCode code = false)
    ∧ ((∃ compiled, compileDefault d = .ok compiled) ↔ d.report.hasErrors = false)
    ∧ (d.report.hasErrors = true → compileDefault d = .error (.invalid d.report.errors)) := by
  intro d
  have empty : (new id name createdBy now).IsStandard := by
    intro b mem
    contradiction
  have standard : d.IsStandard := isStandard_serveAll empty edits
  have sound : d.IsSound :=
    standard.isSound ((isWellFormed_new id name createdBy now).of_serveAll _)
  refine ⟨fun code ruledOut => standard.hasCode_eq_false sound ruledOut, ?_, fun errors => ?_⟩
  · rw [compileDefault, isOk_compile_iff, judge_eq_ok_iff]
    constructor
    · rintro ⟨-, ⟨harmless, -⟩, -⟩
      exact harmless
    · intro harmless
      refine ⟨Options.check_default, ⟨harmless, fun deny => ?_⟩, standard.exists_emissions sound _⟩
      -- the default options take warnings
      contradiction
  · have cycle : d.report.hasCycle = false := standard.hasCode_eq_false sound (by decide)
    exact compile_of_judge Options.check_default (judge_of_hasErrors cycle errors)

end Definition

end StrategyCanvas
