import Mathlib.Data.List.Forall2
import StrategyCanvas.Code.Plan
import StrategyCanvas.Proofs.Step

/-!
# What plans keep

Naming a block loses nothing of it: its plan has the block, the type its tag stands for, a parameter
for each of its settings and a field for each of its outputs, in order (`BlockPlan.IsFor`). Only two
things keep a block from being planned, a tag that stands for no type and an output that no field
can hold (`exists_planBlocks`). Values go from properties to parameters untouched, so that blocks
whose values look the same have parameters that do (`map_viewed_settings`, `map_viewed_paramsOf`).
-/

namespace StrategyCanvas.Code

/-! ## Lists that correspond -/

/-- Of lists that correspond, every member of the second has a partner in the first. -/
theorem exists_of_forall₂ {α β : Type} {r : α → β → Prop} {as : List α} {bs : List β}
    (h : List.Forall₂ r as bs) : ∀ b ∈ bs, ∃ a ∈ as, r a b := by
  induction h with
  | nil => simp
  | cons here _ ih =>
    rw [List.forall_mem_cons]
    refine ⟨⟨_, List.mem_cons_self, here⟩, fun b mem => ?_⟩
    obtain ⟨a, known, related⟩ := ih b mem
    exact ⟨a, List.mem_cons_of_mem _ known, related⟩

/-- Views that agree on whatever corresponds agree on lists that correspond. -/
theorem map_eq_of_forall₂ {α β γ : Type} {r : α → β → Prop} {f : β → γ} {g : α → γ}
    (same : ∀ a b, r a b → f b = g a) {as : List α} {bs : List β} (h : List.Forall₂ r as bs) :
    bs.map f = as.map g := by
  induction h with
  | nil => rfl
  | cons here _ ih => rw [List.map_cons, List.map_cons, ih, same _ _ here]

/-- What is collected from lists that correspond is the same if it is for whatever corresponds. -/
theorem flatMap_eq_of_forall₂ {α β γ : Type} {r : α → β → Prop} {f : β → List γ} {g : α → List γ}
    (same : ∀ a b, r a b → f b = g a) {as : List α} {bs : List β} (h : List.Forall₂ r as bs) :
    bs.flatMap f = as.flatMap g := by
  rw [List.flatMap_def, List.flatMap_def, map_eq_of_forall₂ same h]

/-- Lists correspond if views of them agree. -/
theorem forall₂_of_map_eq {α β γ : Type} {f : β → γ} {g : α → γ} {as : List α} {bs : List β}
    (h : bs.map f = as.map g) : List.Forall₂ (fun a b => f b = g a) as bs := by
  rw [← List.forall₂_eq_eq_eq, List.forall₂_map_left_iff, List.forall₂_map_right_iff] at h
  exact h.flip

/-- Partners in lists that correspond are members of them. -/
theorem forall₂_with_mem {α β : Type} {r : α → β → Prop} {as : List α} {bs : List β}
    (h : List.Forall₂ r as bs) : List.Forall₂ (fun a b => a ∈ as ∧ b ∈ bs ∧ r a b) as bs := by
  have right : List.Forall₂ (fun b a => b ∈ bs ∧ r a b) bs as :=
    (List.forall₂_and_left ..).mpr ⟨fun _ mem => mem, h.flip⟩
  exact (List.forall₂_and_left ..).mpr ⟨fun _ mem => mem, right.flip⟩

/-- Of lists that correspond, what holds of all pairs of the first holds of all pairs of the
second, if partners pass it on. -/
theorem pairwise_of_forall₂ {α β : Type} {r : α → β → Prop} {p : α → α → Prop}
    {q : β → β → Prop} {as : List α} {bs : List β} (h : List.Forall₂ r as bs)
    (pairs : as.Pairwise p)
    (pass : ∀ a ∈ as, ∀ a' ∈ as, ∀ b b', r a b → r a' b' → p a a' → q b b') : bs.Pairwise q := by
  induction h with
  | nil => exact .nil
  | @cons a b as bs here there ih =>
    obtain ⟨first, others⟩ := List.pairwise_cons.mp pairs
    refine List.pairwise_cons.mpr ⟨fun b' mem => ?_, ih others fun a ha a' ha' =>
      pass a (List.mem_cons_of_mem _ ha) a' (List.mem_cons_of_mem _ ha')⟩
    obtain ⟨a', listed, related⟩ := exists_of_forall₂ there b' mem
    exact pass a List.mem_cons_self a' (List.mem_cons_of_mem _ listed) b b' here related
      (first a' listed)

/-- The block that a refusal names. -/
def CompileError.blockId? : CompileError → Option String
  | .unsupportedBlockType id _ | .unsupportedPortKind id _ _ | .incompleteBlock id _ => some id
  | .invalid _ | .circularDependency | .unsupportedConversion .. | .invalidOption .. => none

/-! ## Fields -/

/-- Every kind but `any` has fields. -/
theorem fieldType?_eq_none_iff {kind : DataKind} : fieldType? kind = none ↔ kind = .any := by
  cases kind <;> simp [fieldType?]

/-- The setting that a parameter is made from. -/
def Param.setting (p : Param) : Setting := ⟨p.property, p.kind, p.value⟩

/-- The parameters have the settings that they are made from. -/
theorem map_setting_paramsOf {settings : List Setting} {keys fields : List String}
    (hkeys : keys.length = settings.length) (hfields : fields.length = settings.length) :
    (paramsOf settings keys fields).map Param.setting = settings := by
  have enough : settings.length ≤ (keys.zip fields).length := by
    rw [List.length_zip, hkeys, hfields]
    omega
  have views : (paramsOf settings keys fields).map Param.setting
      = (settings.zip (keys.zip fields)).map Prod.fst := by
    rw [paramsOf, List.map_map]
    rfl
  rw [views, List.map_fst_zip enough]

/-- The fields of outputs have the ids, names and kinds of the ports. -/
theorem map_outputsOf {ports : List OutputPort} {fields : List String}
    (hfields : fields.length = ports.length) :
    (outputsOf ports fields).map (fun o => (o.portId, o.name, o.kind))
      = ports.map fun p => (p.id, p.name, p.dataKind) := by
  have enough : ports.length ≤ fields.length := by omega
  have views : (outputsOf ports fields).map (fun o => (o.portId, o.name, o.kind))
      = ((ports.zip fields).map Prod.fst).map fun p => (p.id, p.name, p.dataKind) := by
    rw [outputsOf, List.map_map, List.map_map]
    rfl
  rw [views, List.map_fst_zip enough]

/-! ## Values as they are seen -/

/-- A setting with its value as it is seen. -/
def Setting.viewed (view : Option PropertyValue → Option PropertyValue) (s : Setting) : Setting :=
  { s with value := view s.value }

/-- A parameter with its value as it is seen. -/
def Param.viewed (view : Option PropertyValue → Option PropertyValue) (p : Param) : Param :=
  { p with value := view p.value }

section

variable {view : Option PropertyValue → Option PropertyValue}

/-- Settings look the same if the properties of the block do. -/
theorem map_viewed_settings {template : Option Template} {b b' : Block}
    (same : b'.properties.map (fun p => { p with value := view p.value })
      = b.properties.map fun p => { p with value := view p.value }) :
    (settings template b').map (·.viewed view) = (settings template b).map (·.viewed view) := by
  have own (b : Block) : (b.properties.map fun p =>
        (⟨p.name, .ofProperty p.kind, p.value⟩ : Setting)).map (·.viewed view)
      = (b.properties.map fun p => { p with value := view p.value }).map fun p =>
          ⟨p.name, .ofProperty p.kind, p.value⟩ := by
    rw [List.map_map, List.map_map]
    rfl
  have known (b : Block) (name : String) : (b.property? name).isNone
      = ((b.properties.map fun p => { p with value := view p.value }).find?
          (·.name = name)).isNone := by
    rw [List.find?_map, Option.isNone_map]
    rfl
  unfold settings
  rw [List.map_append, List.map_append, own, own, same]
  simp only [known, same]

variable {mine mine' : List Setting}
  (same : mine'.map (·.viewed view) = mine.map (·.viewed view))

include same

/-- The names of settings are read without their values. -/
theorem map_name_of_viewed (f : String → String) :
    mine'.map (fun s => f s.name) = mine.map fun s => f s.name := by
  have names := congrArg (List.map fun s => f s.name) same
  rwa [List.map_map, List.map_map] at names

/-- Parameters look the same if the settings that they are made from do. -/
theorem map_viewed_paramsOf (keys fields : List String) :
    (paramsOf mine' keys fields).map (·.viewed view)
      = (paramsOf mine keys fields).map (·.viewed view) := by
  have seen (settings : List Setting) : (paramsOf settings keys fields).map (·.viewed view)
      = paramsOf (settings.map (·.viewed view)) keys fields := by
    rw [paramsOf, paramsOf, List.map_map, List.zip_map_left, List.map_map]
    rfl
  rw [seen, same, ← seen]

end

/-! ## Plans -/

/-- A plan as seen from its block. -/
structure BlockPlan.IsFor (plan : BlockPlan) (catalog : Catalog) (b : Block) : Prop where
  block : plan.block = b
  type : BlockType.ofTag? b.type = some plan.type
  params : plan.params.map Param.setting = settings (catalog.template? plan.type) b
  outputs : plan.outputs.map (fun o => (o.portId, o.name, o.kind))
    = b.outputs.map fun p => (p.id, p.name, p.dataKind)

/-- The parameters of a plan are the settings of its block, in their order. -/
theorem BlockPlan.IsFor.map_property {plan : BlockPlan} {catalog : Catalog} {b : Block}
    (h : plan.IsFor catalog b) : plan.params.map (·.property)
      = (settings (catalog.template? plan.type) b).map (·.name) := by
  rw [← h.params, List.map_map]
  rfl

/-- The tag of a block stands for a type, and every output has a kind that a field can hold. -/
def IsPlannable (b : Block) : Prop :=
  (∃ type, BlockType.ofTag? b.type = some type) ∧ ∀ p ∈ b.outputs, p.dataKind ≠ .any

section

variable {catalog : Catalog} {claimed claimed' : Claimed} {b : Block} {plan : BlockPlan}

/-- Every output can be held by a field exactly if none is of the kind that stands for all. -/
theorem find?_fieldType?_eq_none_iff :
    (b.outputs.find? fun p => (fieldType? p.dataKind).isNone) = none
      ↔ ∀ p ∈ b.outputs, p.dataKind ≠ .any := by
  simp [List.find?_eq_none, fieldType?_eq_none_iff]

/-- A block that is planned is plannable, and the plan is one for it. -/
theorem isFor_of_planBlock (h : planBlock catalog claimed b = .ok (plan, claimed')) :
    plan.IsFor catalog b ∧ IsPlannable b := by
  unfold planBlock at h
  split at h
  · contradiction
  · rename_i type parsed
    dsimp only at h
    split at h
    · contradiction
    · rename_i representable
      obtain ⟨rfl, -⟩ := Prod.mk.inj (Except.ok.inj h)
      -- the names of parameters and outputs are claimed together and split again
      refine ⟨⟨rfl, parsed, map_setting_paramsOf ?_ ?_, map_outputsOf ?_⟩, ⟨type, parsed⟩,
        find?_fieldType?_eq_none_iff.mp representable⟩
      · rw [length_freshNames, List.length_map]
      · simp
      · simp

/-- A plannable block is planned, whatever names are taken. -/
theorem exists_planBlock (catalog : Catalog) (claimed : Claimed) (h : IsPlannable b) :
    ∃ r, planBlock catalog claimed b = .ok r := by
  obtain ⟨⟨type, parsed⟩, representable⟩ := h
  unfold planBlock
  rw [parsed, find?_fieldType?_eq_none_iff.mpr representable]
  exact ⟨_, rfl⟩

/-- What is wrong with a plan is wrong with its block. -/
theorem planBlock_eq_error {e : CompileError} (h : planBlock catalog claimed b = .error e) :
    e.blockId? = some b.id := by
  unfold planBlock at h
  split at h
  · obtain rfl := Except.error.inj h
    rfl
  · dsimp only at h
    split at h
    · obtain rfl := Except.error.inj h
      rfl
    · contradiction

end

/-! ## All blocks -/

/-- Plans for the blocks of a strategy, none of which is refused. -/
def Planned (catalog : Catalog) (plans : List BlockPlan) (blocks : List Block) : Prop :=
  List.Forall₂ (fun plan b => plan.IsFor catalog b ∧ IsPlannable b) plans blocks

section

variable {catalog : Catalog} {claimed : Claimed} {blocks : List Block} {plans : List BlockPlan}

/-- Each block has a plan for it, in the order of the blocks. -/
theorem planned_of_planBlocks (h : planBlocks catalog claimed blocks = .ok plans) :
    Planned catalog plans blocks := by
  induction blocks generalizing claimed plans with
  | nil =>
    obtain rfl := Except.ok.inj h
    exact .nil
  | cons b rest ih =>
    obtain ⟨⟨plan, claimed'⟩, here, h⟩ := bind_eq_ok_iff.mp h
    obtain ⟨plans, there, h⟩ := bind_eq_ok_iff.mp h
    obtain rfl := Except.ok.inj h
    exact .cons (isFor_of_planBlock here) (ih there)

/-- The outputs of all plans are those of all blocks, in their order. -/
theorem Planned.outputs_eq (h : Planned catalog plans blocks) :
    (plans.flatMap (·.outputs)).map (fun o => (o.portId, o.name, o.kind))
      = (blocks.flatMap (·.outputs)).map fun p => (p.id, p.name, p.dataKind) := by
  induction h with
  | nil => rfl
  | cons here _ ih =>
    rw [List.flatMap_cons, List.flatMap_cons, List.map_append, List.map_append, ih,
      here.1.outputs]

/-- All blocks that are planned are plannable. -/
theorem Planned.isPlannable (h : Planned catalog plans blocks) : ∀ b ∈ blocks, IsPlannable b := by
  induction h with
  | nil => simp
  | cons here _ ih =>
    rw [List.forall_mem_cons]
    exact ⟨here.2, ih⟩

/-- Every plan is for one of the blocks. -/
theorem Planned.exists_isFor (h : Planned catalog plans blocks) :
    ∀ plan ∈ plans, ∃ b ∈ blocks, plan.IsFor catalog b := by
  intro plan mem
  obtain ⟨b, known, isFor, -⟩ := exists_of_forall₂ h.flip plan mem
  exact ⟨b, known, isFor⟩

/-- Every block has a plan. -/
theorem Planned.exists_plan (h : Planned catalog plans blocks) :
    ∀ b ∈ blocks, ∃ plan ∈ plans, plan.IsFor catalog b := by
  intro b mem
  obtain ⟨plan, known, isFor, -⟩ := exists_of_forall₂ h b mem
  exact ⟨plan, known, isFor⟩

/-- Plannable blocks are planned one after the other, whatever names are taken. -/
theorem exists_planBlocks (catalog : Catalog) (claimed : Claimed)
    (h : ∀ b ∈ blocks, IsPlannable b) :
    ∃ plans, planBlocks catalog claimed blocks = .ok plans := by
  induction blocks generalizing claimed with
  | nil => exact ⟨[], rfl⟩
  | cons b rest ih =>
    obtain ⟨⟨plan, claimed'⟩, here⟩ := exists_planBlock catalog claimed (h b List.mem_cons_self)
    obtain ⟨plans, there⟩ := ih claimed' fun b mem => h b (List.mem_cons_of_mem _ mem)
    exact ⟨plan :: plans, bind_eq_ok_iff.mpr ⟨_, here, bind_eq_ok_iff.mpr ⟨_, there, rfl⟩⟩⟩

/-- A block at the end of a strategy takes no name from those before it. -/
theorem planBlocks_append_singleton {b : Block}
    (h : planBlocks catalog claimed (blocks ++ [b]) = .ok plans) : ∃ front p,
      planBlocks catalog claimed blocks = .ok front ∧ plans = front ++ [p] ∧ p.block = b := by
  induction blocks generalizing claimed plans with
  | nil =>
    obtain ⟨⟨p, claimed'⟩, here, h⟩ := bind_eq_ok_iff.mp h
    obtain rfl := Except.ok.inj h
    exact ⟨[], p, rfl, rfl, (isFor_of_planBlock here).1.block⟩
  | cons a rest ih =>
    obtain ⟨⟨first, claimed'⟩, here, h⟩ := bind_eq_ok_iff.mp h
    obtain ⟨others, there, h⟩ := bind_eq_ok_iff.mp h
    obtain rfl := Except.ok.inj h
    obtain ⟨front, p, planned, rfl, block⟩ := ih there
    exact ⟨first :: front, p, bind_eq_ok_iff.mpr ⟨_, here, bind_eq_ok_iff.mpr ⟨_, planned, rfl⟩⟩,
      rfl, block⟩

/-- If planning fails, it fails for one of the blocks. -/
theorem planBlocks_eq_error {e : CompileError} (h : planBlocks catalog claimed blocks = .error e) :
    ∃ b ∈ blocks, e.blockId? = some b.id := by
  induction blocks generalizing claimed with
  | nil => contradiction
  | cons b rest ih =>
    rcases bind_eq_error_iff.mp h with here | ⟨r, -, h⟩
    · exact ⟨b, List.mem_cons_self, planBlock_eq_error here⟩
    · rcases bind_eq_error_iff.mp h with there | ⟨plans, -, h⟩
      · obtain ⟨b, mem, named⟩ := ih there
        exact ⟨b, List.mem_cons_of_mem _ mem, named⟩
      · contradiction

end

end StrategyCanvas.Code
