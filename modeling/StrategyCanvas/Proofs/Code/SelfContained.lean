import StrategyCanvas.Code.Compile
import StrategyCanvas.Proofs.Catalog.Standard
import StrategyCanvas.Proofs.Edit.Placed

/-!
# Strategies that need no catalog

A catalog has a say in compilation only where a block lacks a property of the template of its type.
A block that stems from this template has all of its properties, whatever has been done to it since
(`StemsFrom.settings_eq`), so a strategy that is edited with one catalog compiles the same without
it (`compile_serveAll_empty`).
-/

namespace StrategyCanvas

/-- A block stems from the template that a catalog has for its type. -/
def Block.StemsFromCatalog (b : Block) (catalog : Catalog) : Prop :=
  ∃ type t, catalog.template? type = some t ∧ b.StemsFrom t

namespace Block

variable {catalog : Catalog} {b b' : Block} {t : Template}

theorem stemsFromCatalog_place {type : BlockType} {blockId : String} {position : Position}
    (h : catalog.place type blockId position = some b) : b.StemsFromCatalog catalog := by
  obtain ⟨t, found, rfl⟩ := Option.map_eq_some_iff.mp h
  exact ⟨type, t, found, stemsFrom_place t blockId position⟩

theorem StemsFromCatalog.of_revised (h : b.StemsFromCatalog catalog) (revised : b.Revised b') :
    b'.StemsFromCatalog catalog := by
  obtain ⟨type, t, found, stem⟩ := h
  exact ⟨type, t, found, stem.of_revised revised⟩

/-- A block that stems from a template lacks none of its properties. -/
theorem StemsFrom.property?_ne_none (h : b.StemsFrom t) {p : PropertySpec}
    (mem : p ∈ t.properties) : b.property? p.name ≠ none := by
  have names : b.properties.map (·.name) = t.properties.map (·.name) := by
    have views := congrArg (List.map (·.name)) h.properties
    rwa [List.map_map, List.map_map] at views
  rw [property?, Ne, find?_key_eq_none_iff, not_not, names]
  exact List.mem_map_of_mem mem

end Block

namespace Code

variable {catalog : Catalog} {b : Block} {d : Definition}

/-- A block that stems from a template has no setting but its own properties. -/
theorem settings_of_stemsFrom {t : Template} (h : b.StemsFrom t) :
    settings (some t) b = settings none b := by
  have complete : (t.properties.filter fun p => (b.property? p.name).isNone) = [] := by
    rw [List.filter_eq_nil_iff]
    intro p mem
    rw [Option.isNone_iff_eq_none]
    exact h.property?_ne_none mem
  simp only [settings, complete, List.map_nil]

theorem planBlock_empty (h : b.StemsFromCatalog catalog) (claimed : Claimed) :
    planBlock catalog claimed b = planBlock .empty claimed b := by
  obtain ⟨type, t, found, stem⟩ := h
  -- the type that is read off the tag is the one under which the template is found
  have same : t.type = type := key_of_find? found
  have parsed : BlockType.ofTag? b.type = some type := by
    rw [stem.type, BlockType.ofTag?_tag, same]
  simp only [planBlock, parsed, found, settings_of_stemsFrom stem]
  rfl

theorem planBlocks_empty {blocks : List Block} (h : ∀ b ∈ blocks, b.StemsFromCatalog catalog)
    (claimed : Claimed) : planBlocks catalog claimed blocks = planBlocks .empty claimed blocks := by
  induction blocks generalizing claimed with
  | nil => rfl
  | cons b rest ih =>
    obtain ⟨here, there⟩ := List.forall_mem_cons.mp h
    simp only [planBlocks, planBlock_empty here, ih there]

/-- Blocks that stem from the templates of a catalog are compiled the same without it. -/
theorem compile_empty (h : ∀ b ∈ d.blocks, b.StemsFromCatalog catalog) (o : Options) :
    compile o catalog d = compile o .empty d := by
  have plans : plan catalog d = plan .empty d := planBlocks_empty h _
  simp only [compile, emissions, plans]

/-- A strategy that is edited with one catalog alone is compiled to the same code, or refused for
the same reason, with this catalog and with the empty one. -/
theorem compile_serveAll_empty (id name createdBy : String) (now : Time.Instant)
    (catalog : Catalog) (edits : List Edit) (o : Options) :
    let d := (Definition.new id name createdBy now).serveAll (edits.map (.edit catalog))
    compile o catalog d = compile o .empty d := by
  intro d
  have stems : ∀ b ∈ d.blocks, b.StemsFromCatalog catalog := by
    refine Definition.forall_blocks_serveAll (fun _ _ _ _ => Block.stemsFromCatalog_place)
      (fun _ _ => Block.StemsFromCatalog.of_revised) ?_
    intro b mem
    contradiction
  exact compile_empty stems o

end Code

end StrategyCanvas
