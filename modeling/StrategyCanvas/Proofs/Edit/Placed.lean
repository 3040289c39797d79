import Mathlib.Data.List.Nodup
import StrategyCanvas.Catalog.Standard
import StrategyCanvas.Proofs.Document.PortId
import StrategyCanvas.Proofs.Edit.Session

/-!
# Placed blocks

A block never leaves the template that it was placed from: its place, its extent and the values of
its properties can be changed, and nothing else (`StemsFrom.of_revised`). A value can only be
replaced by one that fits (`HoldsFitting.of_revised`). The ports of blocks with distinct ids have
distinct ids (`nodup_portIds`), provided that the names in a template have distinct slugs.
-/

namespace StrategyCanvas

/-- The same property without a value. -/
def Property.unset (p : Property) : Property := { p with value := none }

/-- A block is as a template made it, except for its place, its extent and the values of its
properties. -/
structure Block.StemsFrom (b : Block) (t : Template) : Prop where
  type : b.type = t.type.tag
  category : b.category = t.category
  name : b.name = t.name
  description : b.description = t.description
  inputs : b.inputs = t.inputs.map (·.place b.id)
  outputs : b.outputs = t.outputs.map (·.place b.id)
  properties : b.properties.map (·.unset) = t.properties.map (·.place.unset)

/-- Every value of a block fits the kind of its property. -/
def Block.HoldsFitting (b : Block) : Prop :=
  ∀ p ∈ b.properties, ∀ v, p.value = some v → v.fits p.kind = true

namespace Block

variable {b b' : Block} {t : Template}

theorem stemsFrom_place (t : Template) (blockId : String) (position : Position) :
    (t.place blockId position).StemsFrom t where
  type := rfl
  category := rfl
  name := rfl
  description := rfl
  inputs := rfl
  outputs := rfl
  properties := by simp [Template.place, Function.comp_def]

theorem StemsFrom.of_revised (h : b.StemsFrom t) (revised : b.Revised b') : b'.StemsFrom t := by
  cases revised with
  | moved => exact ⟨h.type, h.category, h.name, h.description, h.inputs, h.outputs, h.properties⟩
  | resized => exact ⟨h.type, h.category, h.name, h.description, h.inputs, h.outputs, h.properties⟩
  | @configured before after p value split =>
    refine ⟨h.type, h.category, h.name, h.description, h.inputs, h.outputs, ?_⟩
    -- the property that is set differs from the old one in its value alone
    rw [← h.properties, split]
    simp [Property.unset]

theorem HoldsFitting.of_revised (h : b.HoldsFitting) (revised : b.Revised b') :
    b'.HoldsFitting := by
  cases revised with
  | moved => exact h
  | resized => exact h
  | @configured before after p value split _ fits =>
    unfold HoldsFitting at h
    rw [split] at h
    intro q mem v given
    rcases List.mem_append.mp mem with mem | mem
    · exact h q (List.mem_append_left _ mem) v given
    · rcases List.mem_cons.mp mem with rfl | mem
      · obtain rfl := Option.some.inj given
        exact fits
      · exact h q (List.mem_append_right _ (List.mem_cons_of_mem _ mem)) v given

theorem exists_stemsFrom_of_place {catalog : Catalog} {type : BlockType} {blockId : String}
    {position : Position} (h : catalog.place type blockId position = some b) :
    ∃ t ∈ catalog.templates, b = t.place blockId position := by
  obtain ⟨t, found, rfl⟩ := Option.map_eq_some_iff.mp h
  exact ⟨t, List.mem_of_find?_eq_some found, rfl⟩

theorem holdsFitting_place (fitting : ∀ p ∈ t.properties, ∀ v ∈ p.default, v.fits p.kind = true)
    (blockId : String) (position : Position) : (t.place blockId position).HoldsFitting := by
  intro p mem v given
  obtain ⟨spec, known, rfl⟩ := List.mem_map.mp mem
  exact fitting spec known v given

/-! ## Port ids -/

theorem StemsFrom.portIds_eq (h : b.StemsFrom t) :
    b.portIds = t.inputs.map (fun p => inputPortId b.id p.name)
      ++ t.outputs.map (fun p => outputPortId b.id p.name) := by
  rw [portIds, h.inputs, h.outputs, List.map_map, List.map_map]
  rfl

theorem StemsFrom.nodup_portIds (h : b.StemsFrom t)
    (inputs : (t.inputs.map fun p => Text.slug p.name).Nodup)
    (outputs : (t.outputs.map fun p => Text.slug p.name).Nodup) : b.portIds.Nodup := by
  rw [h.portIds_eq, List.nodup_append']
  refine ⟨?_, ?_, fun id input output => ?_⟩
  · refine List.pairwise_map.mpr ((List.pairwise_map.mp inputs).imp fun distinct same => ?_)
    exact distinct (inputPortId_eq_iff.mp same).2
  · refine List.pairwise_map.mpr ((List.pairwise_map.mp outputs).imp fun distinct same => ?_)
    exact distinct (outputPortId_eq_iff.mp same).2
  · obtain ⟨p, -, rfl⟩ := List.mem_map.mp input
    obtain ⟨q, -, same⟩ := List.mem_map.mp output
    exact inputPortId_ne_outputPortId same.symm

/-- A port id tells the id of its block. -/
theorem StemsFrom.id_eq_of_mem_portIds {c : Block} {u : Template} (h : b.StemsFrom t)
    (h' : c.StemsFrom u) {id : String} (mem : id ∈ b.portIds) (mem' : id ∈ c.portIds) :
    b.id = c.id := by
  rw [h.portIds_eq, List.mem_append, List.mem_map, List.mem_map] at mem
  rw [h'.portIds_eq, List.mem_append, List.mem_map, List.mem_map] at mem'
  rcases mem with ⟨p, -, rfl⟩ | ⟨p, -, rfl⟩ <;> rcases mem' with ⟨q, -, same⟩ | ⟨q, -, same⟩
  · exact (inputPortId_eq_iff.mp same).1.symm
  · exact absurd same.symm inputPortId_ne_outputPortId
  · exact absurd same inputPortId_ne_outputPortId
  · exact (outputPortId_eq_iff.mp same).1.symm

/-- Blocks with distinct ids have distinct port ids if their templates have distinct slugs. -/
theorem nodup_portIds {blocks : List Block} (ids : (blocks.map (·.id)).Nodup)
    (stems : ∀ b ∈ blocks, ∃ t : Template, b.StemsFrom t
      ∧ (t.inputs.map fun p => Text.slug p.name).Nodup
      ∧ (t.outputs.map fun p => Text.slug p.name).Nodup) :
    (blocks.flatMap (·.portIds)).Nodup := by
  rw [List.nodup_flatMap]
  constructor
  · intro b mem
    obtain ⟨t, stem, inputs, outputs⟩ := stems b mem
    exact stem.nodup_portIds inputs outputs
  · -- a port id of two blocks would give them one id
    have distinct : blocks.Pairwise fun b c => b.id ≠ c.id := List.pairwise_map.mp ids
    refine distinct.imp_of_mem fun {b c} mem mem' ne id inside inside' => ?_
    obtain ⟨t, stem, -⟩ := stems b mem
    obtain ⟨u, stem', -⟩ := stems c mem'
    exact ne (stem.id_eq_of_mem_portIds stem' inside inside')

/-- The id of a port is read from its end, whatever colons the id of its block has: it tells the
side of the port, the block and the slug of the name. Hence blocks that are placed under distinct
ids have no port id in common, whatever their templates are. -/
theorem portId_tells_port :
    (∀ (side side' : PortSide) (b b' m n : String),
      portId side b m = portId side' b' n
        ↔ side = side' ∧ b = b' ∧ Text.slug m = Text.slug n)
    ∧ ∀ (t u : Template) (b b' : String) (p q : Position), b ≠ b' →
        (t.place b p).portIds.Disjoint (u.place b' q).portIds := by
  constructor
  · intro side side' b b' m n
    exact portId_eq_iff
  · intro t u b b' p q distinct id mem mem'
    have placed := stemsFrom_place t b p
    have placed' := stemsFrom_place u b' q
    exact distinct (placed.id_eq_of_mem_portIds placed' mem mem')

/-- The id of one block continues that of the other as a port id would. -/
theorem portId_tells_port_nested :
    let average := (Catalog.movingAverage .sma "SMA" "").place "a:in:x" .origin
    let other := (Catalog.movingAverage .ema "EMA" "").place "a" .origin
    "a:in:x" ≠ "a"
    ∧ portId .input "a:in:x" "y" ≠ portId .input "a" "x:in:y"
    ∧ average.portIds = ["a:in:x:in:source", "a:in:x:out:value"]
    ∧ average.portIds.Disjoint other.portIds := by
  obtain ⟨tells, apart⟩ := portId_tells_port
  have distinct : "a:in:x" ≠ "a" := by decide
  refine ⟨distinct, fun same => ?_, by decide +kernel, apart _ _ _ _ _ _ distinct⟩
  exact distinct ((tells _ _ _ _ _ _).mp same).2.1

end Block

end StrategyCanvas
