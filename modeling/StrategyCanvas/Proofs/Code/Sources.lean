import StrategyCanvas.Proofs.Code.BlockLocations
import StrategyCanvas.Proofs.Code.Clean

/-!
# What inputs read

Inputs are kept by their slugs, and the fields of outputs by the ids of their ports, whichever block
they belong to. In a strategy without errors neither mixes anything up: an input of a block whose
inputs have distinct slugs reads what the last connection into that very input brings, from the
field that is planned for the very output at which the connection starts (`exists_sources`).
-/

namespace StrategyCanvas

/-- The last connection that ends at an input of a block. -/
def Definition.lastInto? (d : Definition) (b : Block) (port : InputPort) : Option Connection :=
  (d.connections.filter fun c => c.targetBlockId = b.id && c.targetInputId = port.id).getLast?

namespace Code

variable {catalog : Catalog} {plans : List BlockPlan} {d : Definition} {b : Block}
  {port : InputPort} {c : Connection}

/-! ## Outputs -/

/-- The field is planned for the output at which the connection starts: in the plan of its block,
for its port and of its kind. -/
def StartsFrom (d : Definition) (plans : List BlockPlan) (c : Connection) (output : OutputField) :
    Prop :=
  ∃ source ∈ d.blocks, ∃ p ∈ source.outputs, ∃ plan ∈ plans,
    source.id = c.sourceBlockId ∧ p.id = c.sourceOutputId ∧ plan.block = source
    ∧ output ∈ plan.outputs ∧ output.portId = p.id ∧ output.kind = p.dataKind

/-- A connection of a sound strategy reads the field of its own output. -/
theorem startsFrom_of_outputField? (planned : Planned catalog plans d.blocks) (sound : d.IsSound)
    (mem : c ∈ d.connections) (canvas : d.blocks ≠ []) {output : OutputField}
    (found : outputField? plans c.sourceOutputId = some output) : StartsFrom d plans c output := by
  obtain ⟨front, back, split⟩ := List.append_of_mem mem
  obtain ⟨source, _, p, _, resolves, -⟩ := sound.admissible canvas front c back split
  have known : source ∈ d.blocks := List.mem_of_find?_eq_some resolves.source_found
  have listed : p ∈ source.outputs := List.mem_of_find?_eq_some resolves.output_found
  have id : p.id = c.sourceOutputId := key_of_find? resolves.output_found
  obtain ⟨plan, here, block, own, member, only, portId, kind⟩ :=
    exists_outputField? planned sound.distinct known listed
  -- the field that is found is that of the plan
  rw [id, found] at only
  obtain rfl := Option.some.inj only
  exact ⟨source, known, p, listed, plan, here, key_of_find? resolves.source_found, id, block,
    member, portId, kind⟩

/-! ## Inputs -/

/-- Where slugs are distinct, a connection arrives at the slug of an input if it ends there. -/
theorem arrival?_eq_some_iff (ports : (b.inputs.map (·.id)).Nodup)
    (slugs : (b.inputs.map fun p => Text.slug p.name).Nodup) (mem : port ∈ b.inputs) :
    b.arrival? c = some (Text.slug port.name) ↔ c.targetInputId = port.id := by
  constructor
  · intro arrived
    obtain ⟨q, found, same⟩ := Option.map_eq_some_iff.mp arrived
    have : q = port := List.inj_on_of_nodup_map slugs (List.mem_of_find?_eq_some found) mem same
    rw [← this, key_of_find? found]
  · intro into
    have found : b.input? c.targetInputId = some port :=
      (find?_key_eq_some_iff ports).mpr ⟨mem, into.symm⟩
    rw [Block.arrival?, found]
    rfl

/-- The last connection that arrives at the slug of an input is the last one into the input. -/
theorem find?_arrival?_eq (ports : (b.inputs.map (·.id)).Nodup)
    (slugs : (b.inputs.map fun p => Text.slug p.name).Nodup) (mem : port ∈ b.inputs) :
    (d.incoming b.id).reverse.find? (fun c => b.arrival? c = some (Text.slug port.name))
      = d.lastInto? b port := by
  have same : (fun c => decide (b.arrival? c = some (Text.slug port.name)))
      = fun c => decide (c.targetInputId = port.id) := by
    funext c
    rw [decide_eq_decide]
    exact arrival?_eq_some_iff ports slugs mem
  rw [same, ← List.head?_filter, List.filter_reverse, List.head?_reverse, Definition.incoming,
    List.filter_filter, Definition.lastInto?]
  simp only [Bool.and_comm]

/-- Every input of a block of a strategy without errors can be resolved. It has a source exactly if
a connection ends at it, namely the last one that does, and reads the field of the output at which
that connection starts, converted to its own kind. -/
theorem exists_sources (catalog : Catalog) (harmless : d.report.hasErrors = false)
    (plannable : ∀ b ∈ d.blocks, IsPlannable b) (mem : b ∈ d.blocks)
    (slugs : (b.inputs.map fun p => Text.slug p.name).Nodup) :
    ∃ plans ws, plan catalog d = .ok plans ∧ wires plans b (d.incoming b.id) = .ok ws
      ∧ ∀ port ∈ b.inputs, ∃ source,
        inputSlot? b ws port.name = some ⟨port.dataKind, source⟩
        ∧ match d.lastInto? b port with
          | none => source = none
          | some c => ∃ output expr, StartsFrom d plans c output
            ∧ convert? output.field output.kind port.dataKind = some expr
            ∧ source = some ⟨Text.slug port.name, c.id, expr⟩ := by
  have sound : d.IsSound := Definition.isSound_of_hasErrors harmless
  have ports := sound.distinct.nodup_inputs mem
  obtain ⟨plans, found⟩ := exists_planBlocks catalog ⟨[], [], []⟩ plannable
  have planned : Planned catalog plans d.blocks := planned_of_planBlocks found
  obtain ⟨ws, wired⟩ := exists_wires_incoming planned sound mem
  refine ⟨plans, ws, found, wired, fun port listed => ?_⟩
  -- no other input has the slug, so the kind is that of the port itself
  have kind : (b.inputs.reverse.find? fun p => Text.slug p.name = Text.slug port.name)
      = some port := by
    refine (find?_key_eq_some_iff ?_).mpr ⟨List.mem_reverse.mpr listed, rfl⟩
    rwa [List.map_reverse, List.nodup_reverse]
  refine ⟨ws.reverse.find? (·.slug = Text.slug port.name), by rw [inputSlot?, kind]; rfl, ?_⟩
  have last := rel_last_arrival (joins_of_wires planned sound mem wired) port.name
  rw [find?_arrival?_eq ports slugs listed] at last
  generalize into : d.lastInto? b port = connection at last ⊢
  generalize ws.reverse.find? (·.slug = Text.slug port.name) = source at last ⊢
  cases last with
  | none => rfl
  | @some c w joins =>
    obtain ⟨q, output, joins⟩ := joins
    obtain ⟨known, ends⟩ := List.mem_filter.mp (List.mem_of_getLast? into)
    have target : c.targetInputId = port.id := by simpa using (Bool.and_eq_true_iff.mp ends).2
    -- the wire leads to the port at hand
    have input : b.input? c.targetInputId = some port :=
      (find?_key_eq_some_iff ports).mpr ⟨listed, target.symm⟩
    obtain rfl : q = port := Option.some.inj (joins.input_found.symm.trans input)
    obtain ⟨slug, id, expr⟩ := w
    obtain rfl := joins.slug
    obtain rfl := joins.id
    exact ⟨output, expr, startsFrom_of_outputField? planned sound known (List.ne_nil_of_mem mem)
      joins.output_found, joins.converted, rfl⟩

/-- The log reads the price, as the connection from the volume comes first. -/
theorem exists_sources_priceLog : priceLog.report.hasErrors = false
    ∧ (∀ b ∈ priceLog.blocks, IsPlannable b)
    ∧ ∃ b ∈ priceLog.blocks, (b.inputs.map fun p => Text.slug p.name).Nodup
      ∧ ∃ plans ws source, plan ⟨[]⟩ priceLog = .ok plans
        ∧ wires plans b (priceLog.incoming b.id) = .ok ws
        ∧ inputSlot? b ws "Value" = some ⟨.any, some source⟩ ∧ source.connectionId = "price" := by
  have harmless : priceLog.report.hasErrors = false := by decide +kernel
  have known : ∀ b ∈ priceLog.blocks, (BlockType.ofTag? b.type).isSome
      ∧ ∀ p ∈ b.outputs, p.dataKind ≠ .any := by decide
  have plannable : ∀ b ∈ priceLog.blocks, IsPlannable b :=
    fun b mem => ⟨Option.isSome_iff_exists.mp (known b mem).1, (known b mem).2⟩
  refine ⟨harmless, plannable, _, List.mem_cons_self, by decide +kernel, ?_⟩
  obtain ⟨plans, ws, planned, wired, reads⟩ :=
    exists_sources ⟨[]⟩ harmless plannable List.mem_cons_self (by decide +kernel)
  obtain ⟨source, slot, last⟩ := reads _ List.mem_cons_self
  obtain ⟨output, expr, -, -, rfl⟩ := last
  exact ⟨plans, ws, _, planned, wired, slot, rfl⟩

end Code

end StrategyCanvas
