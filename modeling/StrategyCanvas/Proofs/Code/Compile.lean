import StrategyCanvas.Code.Compile
import StrategyCanvas.Proofs.Code.Emission
import StrategyCanvas.Proofs.Code.Wiring
import StrategyCanvas.Proofs.Flow.Schedule

/-!
# Which strategies compile

A strategy that validation lets pass is sound, and a sound strategy can always be ordered and wired:
two cycle checks agree on it, and so do two tables of ports. What is left to fail is one block at a
time, for its type, for an output or for a member that its code reads (`exists_emissions_iff`).
-/

namespace StrategyCanvas.Code

variable {catalog : Catalog} {d : Definition} {plans ordered : List BlockPlan} {e : CompileError}

/-! ## Order -/

/-- Plans in the order that ids and the ends of connections give. -/
def orderBy (ids : List String) (ends : List (String × String)) (plans : List BlockPlan) :
    Except CompileError (List BlockPlan) :=
  match (Flow.ofIds ids ends).order with
  | .ok order => .ok (order.filterMap fun i => plans[i.val]?)
  | .error _ => .error .circularDependency

/-- Plans are ordered by the ids of the blocks and the ends of the connections. -/
theorem orderPlans_eq (d : Definition) (plans : List BlockPlan) :
    orderPlans d plans = orderBy d.blockIds (d.connections.map (·.ends)) plans := by
  unfold orderPlans orderBy Definition.flow
  cases (Flow.ofIds d.blockIds (d.connections.map (·.ends))).order <;> rfl

/-- Whatever is made of the plans, their order is the same. -/
theorem orderBy_map (ids : List String) (ends : List (String × String))
    (f : BlockPlan → BlockPlan) (plans : List BlockPlan) :
    orderBy ids ends (plans.map f) = (orderBy ids ends plans).map (List.map f) := by
  unfold orderBy
  cases (Flow.ofIds ids ends).order with
  | error e => rfl
  | ok order => simp only [Except.map, List.map_filterMap, List.getElem?_map]

/-- Plans are put in order by their positions. -/
theorem orderBy_by_position (ids : List String) (ends : List (String × String))
    (plans : List BlockPlan) : orderBy ids ends plans
      = (((Flow.ofIds ids ends).order.toOption.map (List.map Fin.val)).elim
        (.error .circularDependency) fun order => .ok (order.filterMap (plans[·]?))) := by
  unfold orderBy
  cases (Flow.ofIds ids ends).order with
  | error e => rfl
  | ok order =>
    show _ = Except.ok ((order.map Fin.val).filterMap (plans[·]?))
    rw [List.filterMap_map]
    rfl

/-- Renaming ids does not change the order, if no id is given the name of another one that stands at
the end of a connection. -/
theorem orderBy_map_ids {f : String → String} {ids : List String} {ends : List (String × String)}
    (apart : ∀ e ∈ ends, ∀ a ∈ ids, (f a = f e.1 → a = e.1) ∧ (f a = f e.2 → a = e.2))
    (plans : List BlockPlan) :
    orderBy (ids.map f) (ends.map (Prod.map f f)) plans = orderBy ids ends plans := by
  have order := Flow.toOption_order_congr (List.length_map f) (Flow.map_edges_ofIds apart)
  rw [orderBy_by_position, orderBy_by_position, order]

/-- Putting plans in order drops none of them and adds none. -/
theorem mem_orderPlans_iff (length : plans.length = d.blockIds.length)
    (h : orderPlans d plans = .ok ordered) {plan : BlockPlan} : plan ∈ ordered ↔ plan ∈ plans := by
  unfold orderPlans at h
  split at h
  · rename_i order found
    obtain rfl := Except.ok.inj h
    -- an execution order has all positions, and there is a plan at each
    have every : ∀ i, i ∈ order := fun i =>
      (Flow.order_eq_ok found).1.perm.mem_iff.mpr (List.mem_finRange i)
    rw [List.mem_filterMap]
    constructor
    · rintro ⟨i, -, here⟩
      exact List.mem_of_getElem? here
    · intro mem
      obtain ⟨k, bound, here⟩ := List.getElem_of_mem mem
      refine ⟨⟨k, by omega⟩, every _, ?_⟩
      rw [List.getElem?_eq_getElem bound, here]
  · contradiction

/-- Plans can be ordered if the strategy has no cycle. -/
theorem exists_orderPlans (plans : List BlockPlan) (acyclic : IsAcyclic d.flow.Edge) :
    ∃ ordered, orderPlans d plans = .ok ordered := by
  obtain ⟨order, found⟩ := Flow.isOk_order_iff.mpr acyclic
  unfold orderPlans
  rw [found]
  exact ⟨_, rfl⟩

/-! ## Blocks -/

/-- Everything is emitted if the wires of each block are found and it is emitted with them. -/
theorem exists_emitBlocks_iff : (∃ emissions, emitBlocks d plans ordered = .ok emissions)
    ↔ ∀ p ∈ ordered, ∃ ws, wires plans p.block (d.incoming p.block.id) = .ok ws
      ∧ ∃ emission, emit ⟨p, ws⟩ = .ok emission := by
  induction ordered with
  | nil => simp [emitBlocks]
  | cons p rest ih =>
    rw [List.forall_mem_cons, ← ih]
    constructor
    · rintro ⟨emissions, h⟩
      obtain ⟨ws, wired, h⟩ := bind_eq_ok_iff.mp h
      obtain ⟨here, emitted, h⟩ := bind_eq_ok_iff.mp h
      obtain ⟨there, others, -⟩ := bind_eq_ok_iff.mp h
      exact ⟨⟨ws, wired, here, emitted⟩, there, others⟩
    · rintro ⟨⟨ws, wired, here, emitted⟩, there, others⟩
      exact ⟨here :: there, bind_eq_ok_iff.mpr ⟨ws, wired, bind_eq_ok_iff.mpr ⟨here, emitted,
        bind_eq_ok_iff.mpr ⟨there, others, rfl⟩⟩⟩⟩

/-- If something is not emitted, the wires of a block are not found, or it is not emitted with them.
-/
theorem emitBlocks_eq_error (h : emitBlocks d plans ordered = .error e) :
    ∃ p ∈ ordered, wires plans p.block (d.incoming p.block.id) = .error e
      ∨ ∃ ws, emit ⟨p, ws⟩ = .error e := by
  induction ordered with
  | nil => contradiction
  | cons p rest ih =>
    rcases bind_eq_error_iff.mp h with unwired | ⟨ws, -, h⟩
    · exact ⟨p, List.mem_cons_self, .inl unwired⟩
    · rcases bind_eq_error_iff.mp h with refused | ⟨here, -, h⟩
      · exact ⟨p, List.mem_cons_self, .inr ⟨ws, refused⟩⟩
      · rcases bind_eq_error_iff.mp h with later | ⟨there, -, h⟩
        · obtain ⟨q, mem, why⟩ := ih later
          exact ⟨q, List.mem_cons_of_mem _ mem, why⟩
        · contradiction

/-! ## Strategies -/

/-- What a block needs in order to be emitted, by the one type that its tag stands for. -/
theorem isPlannable_and_isComplete_iff {b : Block} : IsPlannable b ∧ IsComplete catalog b
    ↔ ∃ type, BlockType.ofTag? b.type = some type ∧ (∀ p ∈ b.outputs, p.dataKind ≠ .any)
      ∧ ∀ m, (Rule.ofType type).Reads m → Offers b (catalog.template? type) m := by
  constructor
  · intro h
    obtain ⟨⟨⟨type, parsed⟩, representable⟩, complete⟩ := h
    exact ⟨type, parsed, representable, complete type parsed⟩
  · intro h
    obtain ⟨type, parsed, representable, offered⟩ := h
    refine ⟨⟨⟨type, parsed⟩, representable⟩, fun other parsed' => ?_⟩
    rw [parsed] at parsed'
    obtain rfl := Option.some.inj parsed'
    exact offered

/-- The plans are for the blocks, and as many as these. -/
theorem planned_of_plan (h : plan catalog d = .ok plans) :
    Planned catalog plans d.blocks ∧ plans.length = d.blockIds.length := by
  have planned := planned_of_planBlocks h
  refine ⟨planned, ?_⟩
  rw [planned.length_eq]
  simp [Definition.blockIds]

/-- The blocks of a sound strategy are emitted exactly if each of them can be planned and offers
what its code reads. -/
theorem exists_emissions_iff (sound : d.IsSound) :
    (∃ es, emissions catalog d = .ok es)
      ↔ ∀ b ∈ d.blocks, IsPlannable b ∧ IsComplete catalog b := by
  constructor
  · rintro ⟨es, h⟩ b mem
    obtain ⟨plans, found, h⟩ := bind_eq_ok_iff.mp h
    obtain ⟨ordered, arranged, h⟩ := bind_eq_ok_iff.mp h
    obtain ⟨planned, length⟩ := planned_of_plan found
    obtain ⟨p, known, isFor⟩ := planned.exists_plan b mem
    have listed := (mem_orderPlans_iff length arranged).mpr known
    obtain ⟨ws, -, emitted⟩ := exists_emitBlocks_iff.mp ⟨es, h⟩ p listed
    exact ⟨planned.isPlannable b mem, (exists_emit_iff isFor).mp emitted⟩
  · intro fit
    -- planning, ordering and wiring succeed one after the other, and then every block is emitted
    obtain ⟨plans, found⟩ := exists_planBlocks catalog ⟨[], [], []⟩ fun b mem => (fit b mem).1
    obtain ⟨planned, length⟩ := planned_of_plan found
    obtain ⟨ordered, arranged⟩ := exists_orderPlans plans sound.acyclic
    have emitted : ∃ es, emitBlocks d plans ordered = .ok es := by
      refine exists_emitBlocks_iff.mpr fun p listed => ?_
      have known := (mem_orderPlans_iff length arranged).mp listed
      obtain ⟨b, mem, isFor⟩ := planned.exists_isFor p known
      rw [isFor.block]
      obtain ⟨ws, wired⟩ := exists_wires_incoming planned sound mem
      exact ⟨ws, wired, (exists_emit_iff isFor).mpr (fit b mem).2⟩
    obtain ⟨es, emitted⟩ := emitted
    exact ⟨es, bind_eq_ok_iff.mpr ⟨plans, found, bind_eq_ok_iff.mpr ⟨ordered, arranged, emitted⟩⟩⟩

/-- The emission of a sound strategy fails only for a block, which the refusal names. -/
theorem emissions_eq_error (sound : d.IsSound) (h : emissions catalog d = .error e) :
    ∃ b ∈ d.blocks, e.blockId? = some b.id := by
  rcases bind_eq_error_iff.mp h with unplanned | ⟨plans, found, h⟩
  · exact planBlocks_eq_error unplanned
  · obtain ⟨planned, length⟩ := planned_of_plan found
    rcases bind_eq_error_iff.mp h with circular | ⟨ordered, arranged, h⟩
    · obtain ⟨ordered, arranged⟩ := exists_orderPlans plans sound.acyclic
      rw [arranged] at circular
      contradiction
    · obtain ⟨p, listed, why⟩ := emitBlocks_eq_error h
      obtain ⟨b, mem, isFor⟩ :=
        planned.exists_isFor p ((mem_orderPlans_iff length arranged).mp listed)
      refine ⟨b, mem, ?_⟩
      rw [isFor.block] at why
      rcases why with unwired | ⟨ws, refused⟩
      · obtain ⟨ws, wired⟩ := exists_wires_incoming planned sound mem
        rw [wired] at unwired
        contradiction
      · rw [emit_eq_error refused, isFor.block]

/-! ## Judgement -/

/-- The usual options pass the check. -/
theorem Options.check_default : default.check = .ok () := by
  decide +kernel

/-- A circle is an error, so only a strategy with errors is refused for one. -/
theorem hasCycle_of_hasErrors (h : d.report.hasErrors = false) : d.report.hasCycle = false := by
  rw [Definition.hasErrors_eq_false_iff] at h
  rw [Report.hasCycle, Report.hasCode, List.any_eq_false]
  intro finding mem
  obtain ⟨f, defect, rfl⟩ := List.mem_map.mp mem
  have harmless := h f (Definition.mem_defects_iff.mp defect)
  rw [Defect.code_finding, decide_eq_true_eq]
  rintro circular
  rw [circular] at harmless
  contradiction

/-- A report is accepted if it has no errors, and no warnings either where these are denied. -/
theorem judge_eq_ok_iff {o : Options} : o.judge d.report = .ok () ↔ d.report.hasErrors = false
    ∧ (o.denyWarnings = true → d.report.issues = []) := by
  constructor
  · intro h
    unfold Options.judge at h
    split at h
    · contradiction
    · split at h
      · contradiction
      · rename_i sound
        split at h
        · contradiction
        · rename_i silent
          rw [Bool.not_eq_true] at sound
          refine ⟨sound, fun deny => ?_⟩
          rw [deny, Definition.warnings_eq_issues sound] at silent
          simpa using silent
  · rintro ⟨sound, silent⟩
    unfold Options.judge
    rw [hasCycle_of_hasErrors sound, sound]
    cases deny : o.denyWarnings with
    | false => rfl
    | true => simp [Report.warnings, silent deny]

/-- Errors other than a cycle are listed. -/
theorem judge_of_hasErrors {o : Options} {r : Report} (cycle : r.hasCycle = false)
    (errors : r.hasErrors = true) : o.judge r = .error (.invalid r.errors) := by
  unfold Options.judge
  rw [cycle, errors]
  rfl

/-- A report is refused because of a cycle, or with findings. -/
theorem judge_eq_error {o : Options} {r : Report} (h : o.judge r = .error e) :
    e = .circularDependency ∨ ∃ findings, e = .invalid findings := by
  unfold Options.judge at h
  split at h
  · exact .inl (Except.error.inj h).symm
  · split at h
    · exact .inr ⟨_, (Except.error.inj h).symm⟩
    · split at h
      · exact .inr ⟨_, (Except.error.inj h).symm⟩
      · contradiction

/-- Options that do not pass the check are refused with one of them. -/
theorem check_eq_error {o : Options} (h : o.check = .error e) :
    ∃ option value, e = .invalidOption option value := by
  unfold Options.check at h
  split at h
  · exact ⟨_, _, (Except.error.inj h).symm⟩
  · split at h
    · exact ⟨_, _, (Except.error.inj h).symm⟩
    · contradiction

/-! ## Compilation -/

/-- Compilation is done when the options, the report and the emission raise no objection. -/
theorem isOk_compile_iff {o : Options} : (∃ compiled, compile o catalog d = .ok compiled)
    ↔ o.check = .ok () ∧ o.judge d.report = .ok () ∧ ∃ es, emissions catalog d = .ok es := by
  constructor
  · rintro ⟨compiled, h⟩
    obtain ⟨⟨⟩, checked, h⟩ := bind_eq_ok_iff.mp h
    obtain ⟨⟨⟩, judged, h⟩ := bind_eq_ok_iff.mp h
    obtain ⟨es, emitted, -⟩ := bind_eq_ok_iff.mp h
    exact ⟨checked, judged, es, emitted⟩
  · rintro ⟨checked, judged, es, emitted⟩
    exact ⟨o.finish d es, bind_eq_ok_iff.mpr ⟨(), checked, bind_eq_ok_iff.mpr ⟨(), judged,
      bind_eq_ok_iff.mpr ⟨es, emitted, rfl⟩⟩⟩⟩

/-- A refusal comes from the options or from the report, or else it names a block. -/
theorem compile_eq_error {o : Options} (h : compile o catalog d = .error e) :
    o.check = .error e ∨ o.judge d.report = .error e
      ∨ o.judge d.report = .ok () ∧ ∃ b ∈ d.blocks, e.blockId? = some b.id := by
  rcases bind_eq_error_iff.mp h with unusable | ⟨⟨⟩, -, h⟩
  · exact .inl unusable
  · rcases bind_eq_error_iff.mp h with refused | ⟨⟨⟩, judged, h⟩
    · exact .inr (.inl refused)
    · have sound := Definition.isSound_of_hasErrors (judge_eq_ok_iff.mp judged).1
      rcases bind_eq_error_iff.mp h with failed | ⟨es, -, h⟩
      · exact .inr (.inr ⟨judged, emissions_eq_error sound failed⟩)
      · contradiction

/-- A report that is refused ends the compilation. -/
theorem compile_of_judge {o : Options} (checked : o.check = .ok ())
    (judged : o.judge d.report = .error e) : compile o catalog d = .error e :=
  bind_eq_error_iff.mpr (.inr ⟨(), checked, bind_eq_error_iff.mpr (.inl judged)⟩)

/-- A strategy compiles exactly if the options can be used, validation lets it pass, and each of its
blocks can be planned and offers what its code reads. No connection is ever refused for its kinds,
and what validation lets pass has an execution order. -/
theorem exists_compile_iff (o : Options) (catalog : Catalog) (d : Definition) :
    ((∃ compiled, compile o catalog d = .ok compiled) ↔
      o.check = .ok () ∧ d.report.hasErrors = false
      ∧ (o.denyWarnings = true → d.report.issues = [])
      ∧ ∀ b ∈ d.blocks, ∃ type, BlockType.ofTag? b.type = some type
        ∧ (∀ p ∈ b.outputs, p.dataKind ≠ .any)
        ∧ ∀ m, (Rule.ofType type).Reads m → Offers b (catalog.template? type) m)
    ∧ (∀ id source target, compile o catalog d ≠ .error (.unsupportedConversion id source target))
    ∧ (o.judge d.report = .ok () → (∃ order, d.flow.order = .ok order)
      ∧ compile o catalog d ≠ .error .circularDependency) := by
  refine ⟨?_, fun id source target refused => ?_, fun judged => ⟨?_, fun refused => ?_⟩⟩
  · rw [isOk_compile_iff, judge_eq_ok_iff, and_assoc]
    refine and_congr_right fun _ => and_congr_right fun sound => and_congr_right fun _ => ?_
    rw [exists_emissions_iff (Definition.isSound_of_hasErrors sound)]
    exact forall₂_congr fun b _ => isPlannable_and_isComplete_iff
  · -- a refusal is about an option, about a finding or about a block, never about a connection
    rcases compile_eq_error refused with unusable | judged | ⟨-, b, -, named⟩
    · obtain ⟨option, value, same⟩ := check_eq_error unusable
      contradiction
    · rcases judge_eq_error judged with same | ⟨findings, same⟩
      · contradiction
      · contradiction
    · contradiction
  · have sound := Definition.isSound_of_hasErrors (judge_eq_ok_iff.mp judged).1
    exact Flow.isOk_order_iff.mpr sound.acyclic
  · rcases compile_eq_error refused with unusable | judged' | ⟨-, b, -, named⟩
    · obtain ⟨option, value, same⟩ := check_eq_error unusable
      contradiction
    · rw [judged] at judged'
      contradiction
    · contradiction

end StrategyCanvas.Code
