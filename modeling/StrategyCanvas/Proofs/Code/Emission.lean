import StrategyCanvas.Code.Emission
import StrategyCanvas.Proofs.Code.Plan
import StrategyCanvas.Proofs.Document.Lookup

/-!
# What a rule asks of a block

A rule reads a member if the code of its state or one of its lines does. The members that are asked
for are exactly those that are read (`Rule.mem_members_iff`), so a block is emitted exactly if it
offers everything that the code of its type reads (`exists_emit_iff`), however it is wired.
-/

namespace StrategyCanvas.Code

/-! ## Reading -/

/-- The members that a piece of a line reads. -/
def Piece.members : Piece → List Member
  | .text _ | .state | .blockId => []
  | .property name => [.property name]
  | .input name => [.input name]
  | .inputOr name other => [.input name, .property other]
  | .output name => [.output name]

namespace Rule

/-- The members that the code of the state reads. -/
def stateMembers (r : Rule) : List Member :=
  r.state.toList.flatMap fun s => s.properties.map .property

/-- The members that the lines of the update read. -/
def lineMembers (r : Rule) : List Member :=
  (r.update.filterMap (·.text?)).flatMap fun pieces => pieces.flatMap (·.members)

/-- Whether the code of a rule reads a member. -/
def Reads (r : Rule) (m : Member) : Prop := m ∈ r.stateMembers ∨ m ∈ r.lineMembers

theorem members_eq (r : Rule) : r.members = r.stateMembers ++ r.reads := by
  unfold members stateMembers
  cases r.state with
  | none => rfl
  | some s => simp

/-- Every rule asks for what its lines read, and for nothing that they do not read. -/
theorem lines_of_ofType (type : BlockType) : (∀ m ∈ (ofType type).lineMembers,
    m ∈ (ofType type).members) ∧ ∀ m ∈ (ofType type).reads, m ∈ (ofType type).lineMembers := by
  cases type <;> decide +kernel

theorem mem_members_iff {type : BlockType} {m : Member} :
    m ∈ (ofType type).members ↔ (ofType type).Reads m := by
  obtain ⟨asked, needed⟩ := lines_of_ofType type
  constructor
  · intro mem
    rw [members_eq, List.mem_append] at mem
    exact mem.imp_right (needed m)
  · rintro (state | line)
    · rw [members_eq]
      exact List.mem_append_left _ state
    · exact asked m line

end Rule

/-! ## Values as they are seen -/

namespace BlockView

variable {view : Option PropertyValue → Option PropertyValue} {v v' : BlockView}
  (same : v'.plan.params.map (·.viewed view) = v.plan.params.map (·.viewed view))

include same

/-- A parameter looks the same wherever parameters do. -/
theorem map_viewed_param? (name : String) :
    (v'.param? name).map (·.viewed view) = (v.param? name).map (·.viewed view) := by
  have seen (v : BlockView) : (v.param? name).map (·.viewed view)
      = (v.plan.params.map (·.viewed view)).find? (·.property = name) := by
    rw [List.find?_map]
    rfl
  rw [seen, seen, same]

/-- The code that reads a property is made without a look at its value. -/
theorem readProperty_of_viewed : v'.readProperty = v.readProperty := by
  have seen (v : BlockView) (name : String) : v.readProperty name
      = (((v.param? name).map (·.viewed view)).map Param.read).getD "" := by
    rw [Option.map_map]
    rfl
  funext name
  rw [seen, seen, map_viewed_param? same]

end BlockView

/-! ## Offering -/

/-- Whether a block has a member, where the properties of a template count as its own. Ports are
found by the slugs of their names, properties by their names. -/
def Offers (b : Block) (template : Option Template) : Member → Prop
  | .property name => (∃ p ∈ b.properties, p.name = name)
    ∨ ∃ t, template = some t ∧ ∃ p ∈ t.properties, p.name = name
  | .input name => ∃ p ∈ b.inputs, Text.slug p.name = Text.slug name
  | .output name => ∃ p ∈ b.outputs, Text.slug p.name = Text.slug name

/-- Whether a block offers everything that the code of its type reads. -/
def IsComplete (catalog : Catalog) (b : Block) : Prop :=
  ∀ type, BlockType.ofTag? b.type = some type → ∀ m, (Rule.ofType type).Reads m →
    Offers b (catalog.template? type) m

theorem mem_settings_iff {template : Option Template} {b : Block} {name : String} :
    name ∈ (settings template b).map (·.name) ↔ Offers b template (.property name) := by
  have own : name ∈ (b.properties.map fun p =>
      (⟨p.name, .ofProperty p.kind, p.value⟩ : Setting)).map (·.name)
        ↔ ∃ p ∈ b.properties, p.name = name := by simp
  unfold settings
  rw [List.map_append, List.mem_append, own]
  cases template with
  | none => simp [Offers]
  | some t =>
    simp only [Offers, List.map_map, List.mem_map, List.mem_filter, Option.some.injEq,
      exists_eq_left']
    constructor
    · rintro (mine | ⟨p, ⟨mem, -⟩, named⟩)
      · exact .inl mine
      · exact .inr ⟨p, mem, named⟩
    · rintro (mine | ⟨p, mem, rfl⟩)
      · exact .inl mine
      · -- a property of the template is left out only if the block has one of the name
        cases known : b.property? p.name with
        | none => exact .inr ⟨p, ⟨mem, by simp [known]⟩, rfl⟩
        | some q =>
          exact .inl ⟨q, List.mem_of_find?_eq_some known, key_of_find? known⟩

variable {catalog : Catalog} {b : Block} {v : BlockView}

theorem has_iff (isFor : v.plan.IsFor catalog b) {m : Member} :
    v.has m = true ↔ Offers b (catalog.template? v.plan.type) m := by
  cases m with
  | property name =>
    rw [← mem_settings_iff, ← isFor.map_property]
    simp [BlockView.has, BlockView.param?, List.find?_isSome]
  | input name =>
    simp [BlockView.has, BlockView.input?, inputSlot?, isFor.block, Offers, List.find?_isSome]
  | output name =>
    -- the fields of a plan keep the names of the outputs
    have names : v.plan.outputs.map (·.name) = b.outputs.map (·.name) := by
      have views := congrArg (List.map fun view => view.2.1) isFor.outputs
      rwa [List.map_map, List.map_map] at views
    have offered : (∃ p ∈ b.outputs, Text.slug p.name = Text.slug name)
        ↔ ∃ s ∈ b.outputs.map (·.name), Text.slug s = Text.slug name := by simp
    rw [Offers, offered, ← names]
    simp [BlockView.has, BlockView.output?, List.find?_isSome]

/-- A block is emitted exactly if it offers what the code of its type reads. -/
theorem exists_emit_iff (isFor : v.plan.IsFor catalog b) :
    (∃ emission, emit v = .ok emission) ↔ IsComplete catalog b := by
  have complete : ((Rule.ofType v.plan.type).members.find? fun m => !v.has m) = none
      ↔ IsComplete catalog b := by
    rw [List.find?_eq_none]
    constructor
    · intro all type parsed m reads
      rw [isFor.type] at parsed
      obtain rfl := Option.some.inj parsed
      exact (has_iff isFor).mp (by simpa using all m (Rule.mem_members_iff.mpr reads))
    · intro complete m mem
      have := (has_iff isFor).mpr (complete _ isFor.type m (Rule.mem_members_iff.mp mem))
      simp [this]
  rw [← complete]
  unfold emit
  dsimp only
  split
  · rename_i missing
    simp [missing]
  · rename_i none
    simp [none]

theorem emit_eq_error {e : CompileError} (h : emit v = .error e) :
    e.blockId? = some v.plan.block.id := by
  unfold emit at h
  dsimp only at h
  split at h
  · obtain rfl := Except.error.inj h
    rfl
  · contradiction

end StrategyCanvas.Code
