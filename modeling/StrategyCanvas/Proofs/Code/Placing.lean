import StrategyCanvas.Proofs.Code.FieldOwners
import StrategyCanvas.Proofs.Code.Reordering
import StrategyCanvas.Proofs.Edit.WellFormed
import StrategyCanvas.Proofs.Flow.Isolated

/-!
# Compilation of a strategy with one more block

A block that is placed on the canvas comes last. It claims its names after all others, so that no
other block is renamed whatever it is called, and nothing is connected to it, so that it runs last.
The blocks that were there are emitted as before, apart from their updates
(`map_outline_placed`): their parameters, their fields and their order are an initial part of what
the code has afterwards (`compile_of_addBlock`).
-/

namespace StrategyCanvas.Code

variable {o : Options} {catalog : Catalog} {d : Definition} {b : Block}
  {plans ordered : List BlockPlan} {es es' : List Emission}

/-- If a strategy is sound with a block and without it, nothing is connected to the block. -/
theorem ends_ne_of_isSound (sound : d.IsSound) (sound' : (d.placed b).IsSound) {c : Connection}
    (mem : c ∈ d.connections) : c.ends.1 ≠ b.id ∧ c.ends.2 ≠ b.id := by
  by_cases canvas : d.blocks = []
  · -- a block that is alone cannot be connected to another one
    have alone : (d.placed b).blocks = [b] := by simp [Definition.placed, canvas]
    obtain ⟨front, back, split⟩ := List.append_of_mem mem
    have admissible := sound'.admissible (by simp [alone]) front c back split
    rw [alone] at admissible
    have first : c.sourceBlockId = b.id := List.mem_singleton.mp admissible.ends_mem.1
    have last : c.targetBlockId = b.id := List.mem_singleton.mp admissible.ends_mem.2
    exact absurd (first.trans last.symm) admissible.ends_ne
  · have distinct : ((d.blocks ++ [b]).map (·.id)).Nodup := sound'.distinct.1
    have new : b.id ∉ d.blockIds := by
      rw [List.map_append, List.nodup_append'] at distinct
      exact fun known => distinct.2.2 known List.mem_cons_self
    obtain ⟨source, target⟩ := sound.ends_mem canvas mem
    exact ⟨fun same => new (same ▸ source), fun same => new (same ▸ target)⟩

/-- The new block is put in order behind all others. -/
theorem orderPlans_placed (apart : ∀ c ∈ d.connections, c.ends.1 ≠ b.id ∧ c.ends.2 ≠ b.id)
    (length : plans.length = d.blockIds.length) (h : orderPlans d plans = .ok ordered)
    (p : BlockPlan) : orderPlans (d.placed b) (plans ++ [p]) = .ok (ordered ++ [p]) := by
  have same : orderPlans (d.placed b) (plans ++ [p])
      = orderBy (d.blockIds ++ [b.id]) (d.connections.map (·.ends)) (plans ++ [p]) := by
    have ids : (d.placed b).blockIds = d.blockIds ++ [b.id] := List.map_append
    rw [orderPlans_eq, ids]
    rfl
  have ends : ∀ e ∈ d.connections.map (·.ends), e.1 ≠ b.id ∧ e.2 ≠ b.id := by
    rwa [List.forall_mem_map]
  unfold orderPlans at h
  split at h
  · rename_i order found
    obtain rfl := Except.ok.inj h
    -- positions of old blocks lie within the old plans, and the next one is that of the new plan
    have others : (order.map Fin.val).filterMap ((plans ++ [p])[·]?)
        = order.filterMap fun i => plans[i.val]? := by
      rw [List.filterMap_map]
      refine List.filterMap_congr fun i _ => ?_
      exact List.getElem?_append_left (by omega)
    have last : (plans ++ [p])[d.blockIds.length]? = some p := by
      rw [← length]
      exact List.getElem?_concat_length
    rw [same, orderBy_by_position, Flow.map_val_order_ofIds_append ends found, Option.elim_some,
      List.filterMap_append, others]
    simp [last]
  · contradiction

/-- The blocks that were there are emitted as before, except for what they read, and the new one
comes behind them. -/
theorem map_outline_placed (sound : d.IsSound) (sound' : (d.placed b).IsSound)
    (h : emissions catalog d = .ok es) (h' : emissions catalog (d.placed b) = .ok es') :
    ∃ p : BlockPlan, p.block = b
      ∧ es'.map Emission.outline = es.map Emission.outline ++ [p.outline] := by
  obtain ⟨plans, found, h⟩ := bind_eq_ok_iff.mp h
  obtain ⟨ordered, arranged, h⟩ := bind_eq_ok_iff.mp h
  obtain ⟨plans', found', h'⟩ := bind_eq_ok_iff.mp h'
  obtain ⟨ordered', arranged', h'⟩ := bind_eq_ok_iff.mp h'
  -- the old blocks claim their names first, so their plans are the same
  obtain ⟨front, p, planned, rfl, block⟩ := planBlocks_append_singleton found'
  obtain rfl : front = plans := Except.ok.inj (planned.symm.trans found)
  have apart : ∀ c ∈ d.connections, c.ends.1 ≠ b.id ∧ c.ends.2 ≠ b.id :=
    fun c mem => ends_ne_of_isSound sound sound' mem
  rw [orderPlans_placed apart (planned_of_plan found).2 arranged p] at arranged'
  obtain rfl := Except.ok.inj arranged'
  refine ⟨p, block, ?_⟩
  rw [map_eq_of_forall₂ (fun _ _ emits => emits.outline_eq) (emits_of_emitBlocks h),
    map_eq_of_forall₂ (fun _ _ emits => emits.outline_eq) (emits_of_emitBlocks h')]
  exact List.map_append

/-! ## Compiled strategies -/

variable {compiled compiled' : Compiled}

theorem Compiles.executionOrder_eq_outlines (h : Compiles o catalog d compiled plans es) :
    compiled.executionOrder = (es.map Emission.outline).map (·.blockId) := by
  rw [h.result, List.map_map]
  rfl

theorem Compiles.parameterKeys_eq_outlines (h : Compiles o catalog d compiled plans es) :
    compiled.parameterKeys
      = (es.map Emission.outline).flatMap fun e => e.plan.params.map (·.key) := by
  rw [h.result, List.flatMap_map]
  rfl

/-- Which fields there are does not depend on what blocks read. -/
theorem Compiles.ownedFields_eq_outlines (h : Compiles o catalog d compiled plans es) :
    compiled.ownedFields = (es.map Emission.outline).flatMap Emission.ownedFields := by
  rw [h.ownedFields_eq, List.flatMap_map]
  rfl

/-- A new block runs behind all others. The parameters that were there keep their keys and their
order, and the fields that were declared are declared for the same blocks, in the same order and
before all new ones. -/
theorem compile_of_addBlock {templates : Catalog} {d' : Definition} {blockId : String}
    {type : BlockType} {position : Position}
    (accepted : d.apply templates (.addBlock blockId type position) = .ok d')
    (h : compile o catalog d = .ok compiled) (h' : compile o catalog d' = .ok compiled') :
    compiled'.executionOrder = compiled.executionOrder ++ [blockId]
    ∧ compiled.parameterKeys <+: compiled'.parameterKeys
    ∧ compiled.ownedFields <+: compiled'.ownedFields
    ∧ compiled.ownedFields.map (·.2) = declaredFields compiled.code := by
  obtain ⟨-, b, placed, rfl⟩ := Definition.apply_addBlock_eq_ok_iff.mp accepted
  obtain ⟨-, -, es, emitted, -⟩ := compile_eq_ok h
  obtain ⟨-, -, es', emitted', -⟩ := compile_eq_ok h'
  obtain ⟨plans, comp⟩ := exists_compiles_of_emissions h emitted
  obtain ⟨plans', comp'⟩ := exists_compiles_of_emissions h' emitted'
  obtain ⟨p, block, outlines⟩ := map_outline_placed comp.sound comp'.sound emitted emitted'
  have id : p.outline.blockId = blockId := by
    rw [← Definition.id_of_place placed, ← block]
    rfl
  refine ⟨?_, ?_, ?_, comp.map_snd_ownedFields⟩
  · rw [comp.executionOrder_eq_outlines, comp'.executionOrder_eq_outlines, outlines,
      List.map_append, List.map_singleton, id]
  · rw [comp.parameterKeys_eq_outlines, comp'.parameterKeys_eq_outlines, outlines,
      List.flatMap_append]
    exact List.prefix_append _ _
  · rw [comp.ownedFields_eq_outlines, comp'.ownedFields_eq_outlines, outlines, List.flatMap_append]
    exact List.prefix_append _ _

/-- A log that need not be connected, under the name that a log has already. -/
def spareLog : Template where
  type := .log
  category := .output
  name := "Log\n// Log"
  description := ""
  inputs := [⟨"Value", .any, false⟩]
  outputs := []
  properties := [.text "level" "Level" "info", .text "message" "Message" "seen"]
  defaultSize := .usual

/-- The new log asks for the names of the old one, and gets others. -/
theorem compile_placed_spareLog : ∃ d' compiled compiled',
    priceLog.apply ⟨[spareLog]⟩ (.addBlock "spare" .log .origin) = .ok d'
    ∧ compile .default ⟨[]⟩ priceLog = .ok compiled
    ∧ compile .default ⟨[]⟩ d' = .ok compiled'
    ∧ compiled'.executionOrder = compiled.executionOrder ++ ["spare"]
    ∧ compiled.ownedFields <+: compiled'.ownedFields
    ∧ compiled'.parameterKeys = ["Log\n// Log_level", "Log\n// Log_message",
      "Log\n// Log_level_2", "Log\n// Log_message_2"] := by
  have accepted : priceLog.apply ⟨[spareLog]⟩ (.addBlock "spare" .log .origin)
      = .ok (priceLog.placed (spareLog.place "spare" .origin)) := rfl
  obtain ⟨compiled, h⟩ := isOk_compile_priceLog
  obtain ⟨compiled', h'⟩ : ∃ compiled',
      compile .default ⟨[]⟩ (priceLog.placed (spareLog.place "spare" .origin)) = .ok compiled' :=
    exists_of_isSome_toOption (by decide +kernel)
  obtain ⟨order, -, fields, -⟩ := compile_of_addBlock accepted h h'
  have keys : (compile .default ⟨[]⟩
      (priceLog.placed (spareLog.place "spare" .origin))).toOption.map (·.parameterKeys)
        = some ["Log\n// Log_level", "Log\n// Log_message", "Log\n// Log_level_2",
          "Log\n// Log_message_2"] := by decide +kernel
  rw [h'] at keys
  exact ⟨_, compiled, compiled', accepted, h, h', order, fields, Option.some.inj keys⟩

end StrategyCanvas.Code
