import StrategyCanvas.Catalog.Standard
import StrategyCanvas.Proofs.Code.Emission
import StrategyCanvas.Proofs.Edit.Placed

/-!
# The standard templates are regular

A regular template gives its ports names that slugs tell apart, has no output that no field can
hold, starts with values that fit, and offers everything that the code of its type reads. A block
that stems from one can be planned and is complete, whatever its properties are set to and whatever
catalog it is compiled with.
-/

namespace StrategyCanvas

open Code

theorem BlockType.ofTag?_tag (type : BlockType) : ofTag? type.tag = some type := by
  cases type <;> decide +kernel

namespace Template

/-- Whether the blocks of a template have a member from the start. -/
def Offers (t : Template) : Member → Prop
  | .property name => name ∈ t.properties.map (·.name)
  | .input name => Text.slug name ∈ t.inputs.map fun p => Text.slug p.name
  | .output name => Text.slug name ∈ t.outputs.map fun p => Text.slug p.name

instance (t : Template) (m : Member) : Decidable (t.Offers m) :=
  match m with
  | .property _ => inferInstanceAs (Decidable (_ ∈ _))
  | .input _ => inferInstanceAs (Decidable (_ ∈ _))
  | .output _ => inferInstanceAs (Decidable (_ ∈ _))

/-- What the blocks of a template need in order to pass every check but those of their wiring. -/
structure IsRegular (t : Template) : Prop where
  inputs : (t.inputs.map fun p => Text.slug p.name).Nodup
  outputs : (t.outputs.map fun p => Text.slug p.name).Nodup
  representable : ∀ p ∈ t.outputs, p.dataKind ≠ .any
  fitting : ∀ p ∈ t.properties, ∀ v ∈ p.default, v.fits p.kind = true
  complete : ∀ m ∈ (Rule.ofType t.type).members, t.Offers m

theorem isRegular_of_mem_standard {t : Template} (h : t ∈ Catalog.standard.templates) :
    t.IsRegular := by
  have inputs : ∀ t ∈ Catalog.standard.templates,
      (t.inputs.map fun p => Text.slug p.name).Nodup := by decide +kernel
  have outputs : ∀ t ∈ Catalog.standard.templates,
      (t.outputs.map fun p => Text.slug p.name).Nodup := by decide +kernel
  have representable : ∀ t ∈ Catalog.standard.templates,
      ∀ p ∈ t.outputs, p.dataKind ≠ .any := by decide +kernel
  have fitting : ∀ t ∈ Catalog.standard.templates,
      ∀ p ∈ t.properties, ∀ v ∈ p.default, v.fits p.kind = true := by decide +kernel
  have complete : ∀ t ∈ Catalog.standard.templates,
      ∀ m ∈ (Rule.ofType t.type).members, t.Offers m := by decide +kernel
  exact ⟨inputs t h, outputs t h, representable t h, fitting t h, complete t h⟩

end Template

namespace Block

variable {b : Block} {t : Template}

theorem StemsFrom.offers (h : b.StemsFrom t) {m : Member} (offered : t.Offers m)
    (template : Option Template) : Code.Offers b template m := by
  cases m with
  | property name =>
    -- the properties of a block keep the names of its template
    have names : b.properties.map (·.name) = t.properties.map (·.name) := by
      have unset := congrArg (List.map (·.name)) h.properties
      rwa [List.map_map, List.map_map] at unset
    have known : name ∈ b.properties.map (·.name) := names ▸ offered
    obtain ⟨p, mem, same⟩ := List.mem_map.mp known
    exact .inl ⟨p, mem, same⟩
  | input name =>
    obtain ⟨p, mem, same⟩ := List.mem_map.mp offered
    refine ⟨p.place b.id, ?_, same⟩
    rw [h.inputs]
    exact List.mem_map_of_mem mem
  | output name =>
    obtain ⟨p, mem, same⟩ := List.mem_map.mp offered
    refine ⟨p.place b.id, ?_, same⟩
    rw [h.outputs]
    exact List.mem_map_of_mem mem

theorem StemsFrom.isPlannable (h : b.StemsFrom t) (regular : t.IsRegular) : IsPlannable b := by
  refine ⟨⟨t.type, ?_⟩, fun p mem => ?_⟩
  · rw [h.type]
    exact BlockType.ofTag?_tag t.type
  · rw [h.outputs] at mem
    obtain ⟨spec, known, rfl⟩ := List.mem_map.mp mem
    exact regular.representable spec known

theorem StemsFrom.isComplete (h : b.StemsFrom t) (regular : t.IsRegular) (catalog : Catalog) :
    IsComplete catalog b := by
  intro type parsed m reads
  rw [h.type, BlockType.ofTag?_tag] at parsed
  obtain rfl := Option.some.inj parsed
  exact h.offers (regular.complete m (Rule.mem_members_iff.mpr reads)) _

end Block

end StrategyCanvas
