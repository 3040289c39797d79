import Mathlib.Data.List.Perm.Basic
import StrategyCanvas.Proofs.Finding.Acceptance
import StrategyCanvas.Proofs.Flow.Cycle

/-!
# Validation of reordered connections

Each connection is looked at in the light of those before it, so their order decides which ones are
found to repeat or to crowd others. Whether there is such a finding at all does not depend on the
order: connections repeat and crowd each other mutually (`Connection.silent_iff`), and everything
else that is looked at is about their set.
-/

namespace StrategyCanvas

/-! ## Crowded inputs -/

namespace Connection

variable {c e : Connection} {blocks : List Block} {existing : List Connection}

/-- A connection with another id ends at the same input. -/
def Crowds (c e : Connection) : Prop := e.id ≠ c.id ∧ e.targetInputId = c.targetInputId

theorem Crowds.symm (h : c.Crowds e) : e.Crowds c := ⟨Ne.symm h.1, h.2.symm⟩

/-- Two connections end at one input, or at inputs of one block whose names have one slug. -/
def Meets (blocks : List Block) (c e : Connection) : Prop :=
  c.targetInputId = e.targetInputId
    ∨ ∃ b ∈ blocks, c.targetBlockId = b.id ∧ e.targetBlockId = b.id
      ∧ ∃ p ∈ b.inputs, ∃ q ∈ b.inputs, p.id = c.targetInputId ∧ q.id = e.targetInputId
        ∧ Text.slug p.name = Text.slug q.name

instance : Decidable (c.Meets blocks e) := inferInstanceAs (Decidable (_ ∨ _))

theorem Crowds.meets (h : c.Crowds e) : e.Meets blocks c := .inl h.2

theorem Repeats.symm (h : c.Repeats e) : e.Repeats c := ⟨Ne.symm h.1, h.2.1.symm, h.2.2.symm⟩

theorem sharesInput_eq_false_iff :
    c.sharesInput existing = false ↔ ∀ e ∈ existing, ¬ c.Crowds e := by
  simp [sharesInput, Crowds]

/-- Nothing is found about a connection exactly if it joins two blocks and crowds no other. -/
theorem defects_eq_nil_iff (distinct : DistinctIds blocks) : c.defects blocks existing = []
    ↔ c.Joins blocks ∧ ∀ e ∈ existing, ¬ c.Crowds e := by
  constructor
  · intro none
    have admissible : c.IsAdmissible blocks existing := by
      rw [isAdmissible_iff, none]
      simp
    refine ⟨((isAdmissible_iff_joins distinct).mp admissible).1, ?_⟩
    obtain ⟨source, target, output, input, resolves, -, fresh, -⟩ := admissible
    rw [defects_of_resolves resolves, wireDefects, List.append_eq_nil_iff] at none
    rw [← sharesInput_eq_false_iff]
    simpa [fresh] using none.2
  · intro quiet
    obtain ⟨joins, alone⟩ := quiet
    -- a repeated connection would share its input
    have apart : ∀ e ∈ existing, ¬ c.Repeats e :=
      fun e mem repeats => alone e mem ⟨repeats.1, repeats.2.2⟩
    obtain ⟨source, target, output, input, resolves, others, fresh, feeds⟩ :=
      (isAdmissible_iff_joins distinct).mpr ⟨joins, apart⟩
    rw [defects_of_resolves resolves, wireDefects, fresh, sharesInput_eq_false_iff.mpr alone,
      if_neg others, feeds]
    rfl

/-- Nothing is found about connections exactly if they join blocks and none crowds another. -/
theorem silent_iff (distinct : DistinctIds blocks) {connections : List Connection} :
    collectInOrder (fun before c => c.defects blocks before) [] connections = []
      ↔ (∀ c ∈ connections, c.Joins blocks)
        ∧ connections.Pairwise fun e c => ¬ c.Crowds e := by
  have silent (found : List Defect) : found = [] ↔ ∀ f ∈ found, False := by
    rw [List.eq_nil_iff_forall_not_mem]
  rw [silent]
  refine forall_collectInOrder_iff
    (P := fun cs : List Connection =>
      (∀ c ∈ cs, c.Joins blocks) ∧ cs.Pairwise fun e c => ¬ c.Crowds e)
    (fun before c met => ?_) ?_ ⟨by simp, .nil⟩
  · obtain ⟨joined, apart⟩ := met
    rw [← silent, defects_eq_nil_iff distinct, List.pairwise_append]
    simp only [List.mem_append, List.mem_singleton, or_imp, forall_and, forall_eq,
      List.pairwise_singleton, apart, true_and, and_congr_left_iff]
    exact fun _ => (and_iff_right joined).symm
  · rintro before after ⟨joined, apart⟩
    exact ⟨fun c mem => joined c (List.mem_append_left _ mem), (List.pairwise_append.mp apart).1⟩

end Connection

/-! ## Reordered strategies -/

namespace Definition

/-- A strategy with other connections. -/
def rewired (d : Definition) (connections : List Connection) : Definition :=
  { d with connections := connections }

variable {d : Definition} {cs : List Connection}

/-- Reordering connections keeps the edges of the data flow. -/
theorem edge_rewired (perm : d.connections.Perm cs) :
    (Flow.ofIds d.blockIds (d.connections.map (·.ends))).Edge
      = (Flow.ofIds d.blockIds (cs.map (·.ends))).Edge := by
  funext i j
  simp only [Flow.edge_ofIds, Flow.Links, (perm.map (·.ends)).mem_iff]

theorem hasCycle_rewired (perm : d.connections.Perm cs) : (d.rewired cs).hasCycle = d.hasCycle := by
  show (Flow.ofIds d.blockIds (cs.map (·.ends))).hasCycle
    = (Flow.ofIds d.blockIds (d.connections.map (·.ends))).hasCycle
  rw [← Bool.not_inj_iff, Bool.eq_iff_iff, Bool.not_eq_true', Bool.not_eq_true',
    Flow.hasCycle_eq_false_iff, Flow.hasCycle_eq_false_iff, edge_rewired perm]

theorem IsAcceptable.rewired (h : d.IsAcceptable) (perm : d.connections.Perm cs) :
    (d.rewired cs).IsAcceptable := by
  refine ⟨h.blockIds, h.portIds, h.settled, fun c mem => ?_, ?_, h.effect, ?_, ?_⟩
  · exact h.joined c (perm.mem_iff.mpr mem)
  · exact (perm.pairwise_iff fun apart repeats => apart repeats.symm).mp h.apart
  · intro b mem p port required
    obtain ⟨c, listed, ends⟩ := h.fed b mem p port required
    exact ⟨c, perm.mem_iff.mp listed, ends⟩
  · refine h.acyclic.mono fun source target feeds => ?_
    obtain ⟨c, listed, ends⟩ := feeds
    exact ⟨c, perm.mem_iff.mpr listed, ends⟩

theorem hasErrors_rewired (perm : d.connections.Perm cs) (h : d.report.hasErrors = false) :
    (d.rewired cs).report.hasErrors = false := by
  rw [harmless_iff] at h ⊢
  exact ⟨h.1, h.2.imp_right fun acceptable => acceptable.rewired perm⟩

/-- What is not found about connections in one order is not found in another. -/
theorem connectionDefects_rewired (perm : d.connections.Perm cs) (distinct : DistinctIds d.blocks)
    (quiet : d.connectionDefects = []) : (d.rewired cs).connectionDefects = [] := by
  obtain ⟨joined, alone⟩ := (Connection.silent_iff distinct).mp quiet
  refine (Connection.silent_iff distinct).mpr ⟨fun c mem => joined c (perm.mem_iff.mpr mem), ?_⟩
  exact (perm.pairwise_iff fun apart crowds => apart crowds.symm).mp alone

/-- Where nothing is found about connections, their order does not matter to what is found. -/
theorem findings_rewired (perm : d.connections.Perm cs) (distinct : DistinctIds d.blocks)
    (quiet : d.blocks ≠ [] → d.connectionDefects = []) :
    (d.rewired cs).findings = d.findings := by
  have fed (blockId inputId : String) : (d.rewired cs).isFed blockId inputId
      = d.isFed blockId inputId := (perm.any_eq).symm
  have flow : (d.rewired cs).flowDefects = d.flowDefects := by
    unfold flowDefects unfedInputs
    simp only [fed]
    rfl
  have orphaned : (d.rewired cs).isOrphaned = d.isOrphaned := by
    funext b
    have touched : cs.any (·.touches b.id) = d.connections.any (·.touches b.id) :=
      (perm.any_eq).symm
    show (!b.inputs.isEmpty && !b.outputs.isEmpty && !cs.any (·.touches b.id)) = _
    rw [touched]
    rfl
  by_cases none : d.blocks = []
  · simp [findings, defects, rewired, none]
  · have silent := quiet none
    have same : (d.rewired cs).connectionDefects = d.connectionDefects :=
      (connectionDefects_rewired perm distinct silent).trans silent.symm
    have canvas : (d.rewired cs).canvasDefects = d.canvasDefects := by
      rw [canvasDefects_by_rules, canvasDefects_by_rules, same, flow, orphaned,
        hasCycle_rewired perm]
      rfl
    unfold findings defects
    rw [canvas]
    rfl

theorem connectionDefects_of_findings (some : d.blocks ≠ []) (none : d.findings = []) :
    d.connectionDefects = [] := by
  have nothing : d.defects = [] := List.map_eq_nil_iff.mp none
  rw [List.eq_nil_iff_forall_not_mem] at nothing ⊢
  intro f mem
  obtain ⟨front, c, back, split, here⟩ := mem_collectInOrder_iff.mp mem
  exact nothing f (HasDefect.connection some split here).mem

/-- Nothing is found about the connections of an acceptable strategy if no two of them meet. -/
theorem IsAcceptable.connectionDefects_eq_nil (h : d.IsAcceptable)
    (apart : d.connections.Pairwise fun c e => ¬ c.Meets d.blocks e) : d.connectionDefects = [] :=
  (Connection.silent_iff ⟨h.blockIds, h.portIds⟩).mpr
    ⟨h.joined, apart.imp fun none crowds => none crowds.meets⟩

end Definition

end StrategyCanvas
