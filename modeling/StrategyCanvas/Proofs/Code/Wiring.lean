import StrategyCanvas.Code.Wiring
import StrategyCanvas.Proofs.Code.Plan
import StrategyCanvas.Proofs.Document.Lookup
import StrategyCanvas.Proofs.Finding.Report

/-!
# Wires of a sound strategy

The fields that are planned for outputs are the outputs of the strategy again. As their ids are
distinct, a connection finds the field of the very port that validation looked at, and kinds that
fit can be converted: every connection of a sound strategy becomes a wire (`exists_wire`).
-/

namespace StrategyCanvas.Code

/-- Kinds that fit can be converted, unless the source is of any kind. -/
theorem exists_convert? {source target : DataKind} (field : String) (representable : source ≠ .any)
    (feeds : source.feeds target = true) : ∃ expr, convert? field source target = some expr := by
  unfold convert?
  rw [feeds]
  cases source <;> cases target <;> first | contradiction | exact ⟨_, rfl⟩

variable {catalog : Catalog} {plans : List BlockPlan} {blocks : List Block}

/-! ## Ports -/

/-- Of all fields of a strategy with distinct ids, only one has the id of a given port. -/
theorem outputField?_of_mem (planned : Planned catalog plans blocks) (distinct : DistinctIds blocks)
    {plan : BlockPlan} (mem : plan ∈ plans) {output : OutputField}
    (listed : output ∈ plan.outputs) : outputField? plans output.portId = some output := by
  have ids : (plans.flatMap (·.outputs)).map (·.portId)
      = (blocks.flatMap (·.outputs)).map (·.id) := by
    have views := congrArg (List.map Prod.fst) planned.outputs_eq
    rwa [List.map_map, List.map_map] at views
  have nodup : ((plans.flatMap (·.outputs)).reverse.map (·.portId)).Nodup := by
    rw [List.map_reverse, List.nodup_reverse, ids]
    exact distinct.nodup_outputs
  exact (find?_key_eq_some_iff nodup).mpr
    ⟨List.mem_reverse.mpr (List.mem_flatMap.mpr ⟨plan, mem, listed⟩), rfl⟩

/-- The plan of a block has the field of an output, of the kind of the output, and this is the field
that is found under the id of the output. -/
theorem exists_outputField? (planned : Planned catalog plans blocks) (distinct : DistinctIds blocks)
    {b : Block} (mem : b ∈ blocks) {p : OutputPort} (port : p ∈ b.outputs) :
    ∃ plan ∈ plans, plan.block = b ∧ ∃ output ∈ plan.outputs,
      outputField? plans p.id = some output ∧ output.portId = p.id
        ∧ output.kind = p.dataKind := by
  obtain ⟨plan, known, isFor⟩ := planned.exists_plan b mem
  have view : (p.id, p.name, p.dataKind)
      ∈ plan.outputs.map fun o => (o.portId, o.name, o.kind) := by
    rw [isFor.outputs]
    exact List.mem_map_of_mem port
  obtain ⟨output, listed, same⟩ := List.mem_map.mp view
  obtain ⟨id, -, kind⟩ :
      output.portId = p.id ∧ output.name = p.name ∧ output.kind = p.dataKind := by
    simpa using same
  have found := outputField?_of_mem planned distinct known listed
  rw [id] at found
  exact ⟨plan, known, isFor.block, output, listed, found, id, kind⟩

/-! ## Wires -/

variable {d : Definition}

/-- A connection of a sound strategy becomes a wire between the ports that it names. -/
theorem exists_wire (planned : Planned catalog plans d.blocks) (sound : d.IsSound) {b : Block}
    (mem : b ∈ d.blocks) {c : Connection} (hc : c ∈ d.incoming b.id) :
    ∃ port output expr, b.input? c.targetInputId = some port
      ∧ outputField? plans c.sourceOutputId = some output
      ∧ convert? output.field output.kind port.dataKind = some expr
      ∧ wire plans b c = .ok (some ⟨Text.slug port.name, c.id, expr⟩) := by
  obtain ⟨known, target⟩ := List.mem_filter.mp hc
  obtain ⟨front, back, split⟩ := List.append_of_mem known
  obtain ⟨s, t, o, port, resolves, -, -, feeds⟩ :=
    sound.admissible (List.ne_nil_of_mem mem) front c back split
  -- ids of blocks are distinct, so the target that was validated is the block at hand
  have same : t = b := by
    have id : b.id = c.targetBlockId := (of_decide_eq_true target).symm
    have found := (find?_key_eq_some_iff sound.distinct.1).mpr ⟨mem, id⟩
    rw [resolves.target_found] at found
    exact Option.some.inj found
  have present : s ∈ d.blocks := List.mem_of_find?_eq_some resolves.source_found
  have port_mem : o ∈ s.outputs := List.mem_of_find?_eq_some resolves.output_found
  have id : o.id = c.sourceOutputId := key_of_find? resolves.output_found
  obtain ⟨_, -, -, output, -, found, -, kind⟩ :=
    exists_outputField? planned sound.distinct present port_mem
  have representable : output.kind ≠ .any := by
    rw [kind]
    exact (planned.isPlannable s present).2 o port_mem
  obtain ⟨expr, converted⟩ := exists_convert? output.field representable (kind ▸ feeds)
  have input : b.input? c.targetInputId = some port := same ▸ resolves.input_found
  rw [id] at found
  refine ⟨port, output, expr, input, found, converted, ?_⟩
  simp only [wire, input, found, converted]

/-- The wires into a block of a sound strategy can be made. -/
theorem exists_wires {b : Block} {connections : List Connection}
    (h : ∀ c ∈ connections, ∃ w, wire plans b c = .ok w) :
    ∃ ws, wires plans b connections = .ok ws := by
  induction connections with
  | nil => exact ⟨[], rfl⟩
  | cons c rest ih =>
    obtain ⟨here, wired⟩ := h c List.mem_cons_self
    obtain ⟨there, others⟩ := ih fun c mem => h c (List.mem_cons_of_mem _ mem)
    exact ⟨here.toList ++ there, bind_eq_ok_iff.mpr ⟨here, wired,
      bind_eq_ok_iff.mpr ⟨there, others, rfl⟩⟩⟩

theorem exists_wires_incoming (planned : Planned catalog plans d.blocks) (sound : d.IsSound)
    {b : Block} (mem : b ∈ d.blocks) : ∃ ws, wires plans b (d.incoming b.id) = .ok ws := by
  refine exists_wires fun c hc => ?_
  obtain ⟨_, _, _, -, -, -, wired⟩ := exists_wire planned sound mem hc
  exact ⟨_, wired⟩

/-- What a wire joins: the input at which its connection ends and the field from which it starts,
with the conversion between their kinds. -/
structure Wire.Joins (w : Wire) (plans : List BlockPlan) (b : Block) (c : Connection)
    (port : InputPort) (output : OutputField) : Prop where
  id : w.connectionId = c.id
  slug : w.slug = Text.slug port.name
  input_found : b.input? c.targetInputId = some port
  output_found : outputField? plans c.sourceOutputId = some output
  converted : convert? output.field output.kind port.dataKind = some w.expr

theorem wires_eq_ok {b : Block} {connections : List Connection} {ws : List Wire}
    (wired : ∀ c ∈ connections, ∃ w port output,
      wire plans b c = .ok (some w) ∧ w.Joins plans b c port output)
    (h : wires plans b connections = .ok ws) :
    List.Forall₂ (fun c w => ∃ port output, w.Joins plans b c port output) connections ws := by
  induction connections generalizing ws with
  | nil =>
    obtain rfl := Except.ok.inj h
    exact .nil
  | cons c rest ih =>
    obtain ⟨here, found, h⟩ := bind_eq_ok_iff.mp h
    obtain ⟨there, others, h⟩ := bind_eq_ok_iff.mp h
    obtain rfl := Except.ok.inj h
    obtain ⟨w, port, output, made, joins⟩ := wired c List.mem_cons_self
    rw [made] at found
    obtain rfl := Except.ok.inj found
    refine .cons ⟨port, output, joins⟩ (ih (fun c mem => ?_) others)
    exact wired c (List.mem_cons_of_mem _ mem)

/-- Every connection into a block of a sound strategy has its wire, in order. -/
theorem joins_of_wires (planned : Planned catalog plans d.blocks) (sound : d.IsSound) {b : Block}
    (mem : b ∈ d.blocks) {ws : List Wire} (h : wires plans b (d.incoming b.id) = .ok ws) :
    List.Forall₂ (fun c w => ∃ port output, w.Joins plans b c port output)
      (d.incoming b.id) ws := by
  refine wires_eq_ok (fun c hc => ?_) h
  obtain ⟨port, output, expr, input, found, converted, wired⟩ := exists_wire planned sound mem hc
  exact ⟨_, port, output, wired, ⟨rfl, rfl, input, found, converted⟩⟩

end StrategyCanvas.Code
