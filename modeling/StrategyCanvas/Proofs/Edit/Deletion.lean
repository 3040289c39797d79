import StrategyCanvas.Proofs.Code.BlockLocations
import StrategyCanvas.Proofs.Edit.Session
import StrategyCanvas.Proofs.Finding.Acceptance

/-!
# What a deletion can break

Taking blocks and connections away from a coherent strategy leaves a coherent one, as long as no
connection is left behind without its blocks (`IsCoherent.of_isPartOf`). All that a deletion can
break is therefore the flow of data: an input is no longer fed, or nothing can be observed any more
(`errors_of_deletion`).
-/

namespace StrategyCanvas

open Code (priceLog)

/-- A connection joins what is left of blocks if its own are left. -/
theorem Connection.Joins.of_kept {c : Connection} {blocks blocks' : List Block}
    (h : c.Joins blocks) (kept : ∀ b ∈ blocks, c.touches b.id = true → b ∈ blocks') :
    c.Joins blocks' := by
  obtain ⟨source, hs, target, ht, output, ho, input, hi, sourceId, targetId, joins⟩ := h
  exact ⟨source, kept source hs (by simp [touches, sourceId]),
    target, kept target ht (by simp [touches, targetId]),
    output, ho, input, hi, sourceId, targetId, joins⟩

/-- A finding that an input is not fed, where a connection has ended that is there no longer. -/
def Finding.ReportsLoss (f : Finding) (d d' : Definition) : Prop :=
  f.code = .missingConnection ∧ ∃ c ∈ d.connections, c ∉ d'.connections
    ∧ f.blockId = some c.targetBlockId ∧ d'.isFed c.targetBlockId c.targetInputId = false

namespace Definition

variable {catalog : Catalog} {d d' : Definition} {id : String}

/-! ## Parts of strategies -/

/-- A strategy is what is left of another one, with no connection left behind without its blocks. -/
structure IsPartOf (d' d : Definition) : Prop where
  name : d'.name = d.name
  blocks : d'.blocks.Sublist d.blocks
  connections : d'.connections.Sublist d.connections
  kept : ∀ c ∈ d'.connections, ∀ b ∈ d.blocks, c.touches b.id = true → b ∈ d'.blocks

theorem isPartOf_of_deleteBlock (h : d.apply catalog (.deleteBlock id) = .ok d') :
    d'.IsPartOf d := by
  obtain ⟨-, rfl⟩ := apply_deleteBlock_eq_ok_iff.mp h
  refine ⟨rfl, List.filter_sublist, List.filter_sublist, fun c mem b known touched => ?_⟩
  refine List.mem_filter.mpr ⟨known, ?_⟩
  -- a connection that is left does not touch what has been removed
  have apart := (List.mem_filter.mp mem).2
  rw [decide_eq_true_eq]
  rintro rfl
  rw [touched] at apart
  contradiction

theorem isPartOf_of_deleteConnection (h : d.apply catalog (.deleteConnection id) = .ok d') :
    d'.IsPartOf d ∧ d'.blocks = d.blocks := by
  obtain ⟨-, rfl⟩ := apply_deleteConnection_eq_ok_iff.mp h
  exact ⟨⟨rfl, List.Sublist.refl _, List.filter_sublist, fun _ _ _ known _ => known⟩, rfl⟩

theorem IsCoherent.of_isPartOf (h : d.IsCoherent) (part : d'.IsPartOf d) : d'.IsCoherent where
  blockIds := h.blockIds.sublist (part.blocks.map _)
  portIds := h.portIds.sublist (part.blocks.flatMap _)
  settled b mem := h.settled b (part.blocks.subset mem)
  joined c mem := (h.joined c (part.connections.subset mem)).of_kept (part.kept c mem)
  apart := h.apart.sublist part.connections
  acyclic := by
    refine h.acyclic.mono fun source target feeds => ?_
    obtain ⟨c, mem, ends⟩ := feeds
    exact ⟨c, part.connections.subset mem, ends⟩

/-! ## Errors of parts -/

theorem mem_errors_iff {f : Finding} : f ∈ d.report.errors
    ↔ ∃ defect, d.HasDefect defect ∧ defect.code.isError = true ∧ defect.finding = f := by
  simp only [Report.errors, report, findings, List.mem_filter, List.mem_map, mem_defects_iff]
  constructor
  · rintro ⟨⟨defect, has, rfl⟩, grave⟩
    rw [Defect.isError_finding] at grave
    exact ⟨defect, has, grave, rfl⟩
  · rintro ⟨defect, has, grave, rfl⟩
    exact ⟨⟨defect, has, rfl⟩, by rw [Defect.isError_finding, grave]⟩

/-- Part of a strategy that draws no error draws one at most where an input is no longer fed, or
because blocks are missing and nothing can be observed any more. -/
theorem errors_of_isPartOf (harmless : d.report.hasErrors = false) (part : d'.IsPartOf d)
    {f : Finding} (mem : f ∈ d'.report.errors) : f.ReportsLoss d d'
      ∨ f.code = .noOutputBlocks ∧ d'.blocks ≠ d.blocks := by
  obtain ⟨defect, has, grave, rfl⟩ := mem_errors_iff.mp mem
  obtain ⟨named, whole⟩ := harmless_iff.mp harmless
  rw [← part.name] at named
  -- an error needs a block that is left, and so the whole strategy is acceptable
  have left : d'.blocks ≠ [] := by
    intro none
    have nothing := hasErrors_eq_false_iff.mp ((error_free_of_isEmpty none).mpr named) defect has
    rw [nothing] at grave
    contradiction
  have acceptable : d.IsAcceptable := by
    refine whole.resolve_left fun none => left ?_
    exact List.sublist_nil.mp (none ▸ part.blocks)
  have flow := (acceptable.isCoherent.of_isPartOf part).mem_flowDefects named has grave
  rcases flow_error_iff.mp ⟨flow, grave⟩ with
    ⟨rfl, silent⟩ | ⟨b, known, p, port, required, unfed, rfl⟩
  · refine .inr ⟨rfl, fun same => ?_⟩
    obtain ⟨b, known, effect⟩ := acceptable.effect
    rw [List.any_eq_false] at silent
    exact silent b (same ▸ known) (hasEffect_iff.mpr effect)
  · -- what fed the input is not among the connections that are left
    obtain ⟨c, listed, target, input⟩ := acceptable.fed b (part.blocks.subset known) p port required
    refine .inl ⟨rfl, c, listed, fun kept => ?_, by rw [target]; rfl, by rwa [target, input]⟩
    rw [isFed_iff.mpr ⟨c, kept, target, input⟩] at unfed
    contradiction

/-- Part of a strategy that draws no error has neither wrong ids nor wrong connections nor a
cycle. -/
theorem hasCode_of_isPartOf (harmless : d.report.hasErrors = false) (part : d'.IsPartOf d)
    {code : FindingCode} (structural : code ∈ [.duplicateId, .invalidConnection,
      .duplicateConnection, .typeMismatch, .circularDependency]) :
    d'.report.hasCode code = false := by
  rw [Report.hasCode, List.any_eq_false]
  intro f mem same
  have grave : ∀ c ∈ [FindingCode.duplicateId, .invalidConnection, .duplicateConnection,
      .typeMismatch, .circularDependency],
      c.isError = true ∧ c ≠ .missingConnection ∧ c ≠ .noOutputBlocks := by decide
  obtain ⟨isError, fed, observed⟩ := grave code structural
  obtain rfl : f.code = code := of_decide_eq_true same
  obtain ⟨defect, listed, rfl⟩ := List.mem_map.mp mem
  rw [Defect.code_finding] at isError
  have error : defect.finding ∈ d'.report.errors :=
    mem_errors_iff.mpr ⟨defect, mem_defects_iff.mp listed, isError, rfl⟩
  rcases errors_of_isPartOf harmless part error with ⟨loss, -⟩ | ⟨silent, -⟩
  · exact fed loss
  · exact observed silent

/-! ## Deletions -/

/-- After a deletion, a strategy that drew no error draws one only where a connection that fed a
required input has gone, and after the deletion of a block also if nothing can be observed any more.
No id, no connection and no cycle is ever found fault with. -/
theorem errors_of_deletion (harmless : d.report.hasErrors = false) (catalog : Catalog) :
    (∀ id d', d.apply catalog (.deleteConnection id) = .ok d' →
      (∀ f ∈ d'.report.errors, f.ReportsLoss d d')
      ∧ ∀ code ∈ [FindingCode.duplicateId, .invalidConnection, .duplicateConnection, .typeMismatch,
        .circularDependency], d'.report.hasCode code = false)
    ∧ ∀ id d', d.apply catalog (.deleteBlock id) = .ok d' →
      (∀ f ∈ d'.report.errors, f.ReportsLoss d d' ∨ f.code = .noOutputBlocks)
      ∧ ∀ code ∈ [FindingCode.duplicateId, .invalidConnection, .duplicateConnection, .typeMismatch,
        .circularDependency], d'.report.hasCode code = false := by
  constructor
  · intro id d' accepted
    obtain ⟨part, blocks⟩ := isPartOf_of_deleteConnection accepted
    refine ⟨fun f mem => ?_, fun code => hasCode_of_isPartOf harmless part⟩
    refine (errors_of_isPartOf harmless part mem).resolve_right ?_
    rintro ⟨-, fewer⟩
    exact fewer blocks
  · intro id d' accepted
    have part := isPartOf_of_deleteBlock accepted
    refine ⟨fun f mem => ?_, fun code => hasCode_of_isPartOf harmless part⟩
    exact (errors_of_isPartOf harmless part mem).imp_right And.left

/-- Without its market data, a log lacks its input; without the log, nothing can be observed. -/
theorem errors_priceLog : priceLog.report.hasErrors = false
    ∧ (∃ d', priceLog.apply ⟨[]⟩ (.deleteBlock "feed") = .ok d'
      ∧ d'.report.errors.map (·.code) = [.missingConnection]
      ∧ ∀ f ∈ d'.report.errors, f.ReportsLoss priceLog d' ∨ f.code = .noOutputBlocks)
    ∧ ∃ d', priceLog.apply ⟨[]⟩ (.deleteBlock "log\n") = .ok d'
      ∧ d'.report.errors.map (·.code) = [.noOutputBlocks]
      ∧ ∀ f ∈ d'.report.errors, f.ReportsLoss priceLog d' ∨ f.code = .noOutputBlocks := by
  have harmless : priceLog.report.hasErrors = false := by decide +kernel
  have delete := (errors_of_deletion harmless ⟨[]⟩).2
  refine ⟨harmless, ⟨_, rfl, by decide +kernel, (delete "feed" _ rfl).1⟩, ?_⟩
  exact ⟨_, rfl, by decide +kernel, (delete "log\n" _ rfl).1⟩

end Definition

end StrategyCanvas
