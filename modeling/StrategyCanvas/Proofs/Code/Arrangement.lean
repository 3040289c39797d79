import StrategyCanvas.Proofs.Code.Compile

/-!
# How the blocks of a program are arranged

The blocks of a compiled strategy are those of its definition, each once, and none stands before a
block that feeds it (`arranged_of_emissions`). Each is emitted from its plan and from the wires of
the connections into it.
-/

namespace StrategyCanvas.Code

variable {catalog : Catalog} {d : Definition} {plans ordered : List BlockPlan} {es : List Emission}

/-! ## Blocks -/

/-- A block is emitted by its rule if it has all that the rule reads. -/
theorem emit_eq_ok_iff {v : BlockView} {e : Emission} : emit v = .ok e
    ↔ (∀ m ∈ (Rule.ofType v.plan.type).members, v.has m = true)
      ∧ e = v.emission (Rule.ofType v.plan.type) := by
  unfold emit
  dsimp only
  split
  · rename_i m missing
    have absent := List.find?_some missing
    constructor
    · intro h
      contradiction
    · rintro ⟨all, -⟩
      simp [all m (List.mem_of_find?_eq_some missing)] at absent
  · rename_i none
    rw [Except.ok.injEq, eq_comm (b := e)]
    refine (and_iff_right fun m mem => ?_).symm
    simpa using List.find?_eq_none.mp none m mem

/-- A block is emitted from its plan and the wires of the connections into it. -/
def Emits (d : Definition) (plans : List BlockPlan) (p : BlockPlan) (e : Emission) : Prop :=
  ∃ ws, wires plans p.block (d.incoming p.block.id) = .ok ws ∧ emit ⟨p, ws⟩ = .ok e

theorem Emits.plan_eq {p : BlockPlan} {e : Emission} (h : Emits d plans p e) : e.plan = p := by
  obtain ⟨ws, -, emitted⟩ := h
  rw [(emit_eq_ok_iff.mp emitted).2]
  rfl

/-- What is emitted is emitted for the plans, one by one. -/
theorem emits_of_emitBlocks (h : emitBlocks d plans ordered = .ok es) :
    List.Forall₂ (Emits d plans) ordered es := by
  induction ordered generalizing es with
  | nil =>
    obtain rfl := Except.ok.inj h
    exact .nil
  | cons p rest ih =>
    obtain ⟨ws, wired, h⟩ := bind_eq_ok_iff.mp h
    obtain ⟨here, emitted, h⟩ := bind_eq_ok_iff.mp h
    obtain ⟨there, others, h⟩ := bind_eq_ok_iff.mp h
    obtain rfl := Except.ok.inj h
    exact .cons ⟨ws, wired, emitted⟩ (ih others)

/-- Emission keeps the order of plans. -/
theorem map_plan_of_emits (h : List.Forall₂ (Emits d plans) ordered es) :
    es.map (·.plan) = ordered := by
  have views : es.map (·.plan) = ordered.map id :=
    map_eq_of_forall₂ (fun _ _ emits => emits.plan_eq) h
  rwa [List.map_id] at views

theorem map_blockId_of_emits (h : List.Forall₂ (Emits d plans) ordered es) :
    es.map (·.blockId) = ordered.map (·.block.id) := by
  rw [← map_plan_of_emits h, List.map_map]
  rfl

/-! ## Order -/

theorem Planned.map_id {blocks : List Block} (h : Planned catalog plans blocks) :
    plans.map (·.block.id) = blocks.map (·.id) := by
  induction h with
  | nil => rfl
  | cons here _ ih => rw [List.map_cons, List.map_cons, ih, here.1.block]

/-- The plans are put into an execution order. -/
theorem map_id_of_orderPlans (ids : plans.map (·.block.id) = d.blockIds)
    (h : orderPlans d plans = .ok ordered) : ∃ order, d.flow.IsExecutionOrder order
      ∧ ordered.map (·.block.id) = order.map d.blockIds.get := by
  unfold orderPlans at h
  split at h
  · rename_i order found
    obtain rfl := Except.ok.inj h
    refine ⟨order, (Flow.order_eq_ok found).1, ?_⟩
    have present (i : Fin d.blockIds.length) :
        (plans[i.val]?).map (·.block.id) = some (d.blockIds.get i) := by
      rw [← List.getElem?_map, ids, List.getElem?_eq_getElem i.isLt]
      rfl
    rw [List.map_filterMap, List.filterMap_congr fun i _ => present i, List.filterMap_eq_map']
  · contradiction

/-! ## Strategies -/

/-- The blocks of a strategy as they are emitted: all of them, each once and from a plan, and none
before a block that feeds it. -/
structure Arranged (d : Definition) (plans : List BlockPlan) (es : List Emission) : Prop where
  emits : ∀ e ∈ es, e.plan ∈ plans ∧ Emits d plans e.plan e
  perm : (es.map (·.blockId)).Perm d.blockIds
  forward : es.Pairwise fun a b => ¬ d.Feeds b.blockId a.blockId

/-- What is emitted for a sound strategy is arranged in an execution order. -/
theorem arranged_of_emissions (sound : d.IsSound) (h : emissions catalog d = .ok es) :
    ∃ plans, plan catalog d = .ok plans ∧ Arranged d plans es := by
  obtain ⟨plans, found, h⟩ := bind_eq_ok_iff.mp h
  obtain ⟨ordered, arranged, h⟩ := bind_eq_ok_iff.mp h
  obtain ⟨planned, length⟩ := planned_of_plan found
  have emits := emits_of_emitBlocks h
  obtain ⟨order, executes, ids⟩ := map_id_of_orderPlans planned.map_id arranged
  rw [← map_blockId_of_emits emits] at ids
  refine ⟨plans, found, ⟨fun e mem => ?_, ?_, ?_⟩⟩
  · obtain ⟨p, listed, emitted⟩ := exists_of_forall₂ emits e mem
    rw [emitted.plan_eq]
    exact ⟨(mem_orderPlans_iff length arranged).mp listed, emitted⟩
  · rw [ids]
    have perm := executes.perm.map d.blockIds.get
    rwa [List.map_get_finRange] at perm
  · have forward : (order.map d.blockIds.get).Pairwise fun a b => ¬ d.Feeds b a := by
      rw [List.pairwise_map]
      refine executes.pairwise.imp fun none feeds => none ?_
      exact Definition.edge_of_feeds feeds (Flow.isLast_get sound.distinct.1 _)
        (Flow.isLast_get sound.distinct.1 _)
    rw [← ids, List.pairwise_map] at forward
    exact forward

/-! ## Compilation -/

/-- A compilation that succeeds has passed all checks, and finishes what has been emitted. -/
theorem compile_eq_ok {o : Options} {compiled : Compiled} (h : compile o catalog d = .ok compiled) :
    o.check = .ok () ∧ d.report.hasErrors = false
      ∧ ∃ es, emissions catalog d = .ok es ∧ compiled = o.finish d es := by
  obtain ⟨⟨⟩, checked, h⟩ := bind_eq_ok_iff.mp h
  obtain ⟨⟨⟩, judged, h⟩ := bind_eq_ok_iff.mp h
  obtain ⟨es, emitted, h⟩ := bind_eq_ok_iff.mp h
  exact ⟨checked, (judge_eq_ok_iff.mp judged).1, es, emitted, (Except.ok.inj h).symm⟩

end StrategyCanvas.Code
