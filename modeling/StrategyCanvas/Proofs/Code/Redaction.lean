import StrategyCanvas.Proofs.Code.Arrangement
import StrategyCanvas.Proofs.Finding.Redaction

/-!
# Emission of strategies whose values are hidden

What is planned, wired and emitted for a block depends on the values of its properties in one place:
in the initial values of its fields. Strategies that differ in hidden values are therefore refused
for the same reason or emitted alike (`map_redacted_emissions`).
-/

namespace StrategyCanvas.Code

/-! ## Hidden values -/

/-- What shows of a value that may be hidden. -/
def shown (hidden : Bool) (value : Option PropertyValue) : Option PropertyValue :=
  if hidden then none else value

/-- A state whose initial value, which is made from values, does not show if they are hidden. -/
def StateField.redacted (hidden : Bool) (s : StateField) : StateField :=
  { s with initializer := if hidden then "" else s.initializer }

/-- The plan of a block whose values do not show if its id says that they are hidden. -/
def BlockPlan.redacted (hide : String → Bool) (p : BlockPlan) : BlockPlan :=
  { p with
    block := p.block.redacted hide
    params := p.params.map (·.viewed (shown (hide p.block.id))) }

/-- What is emitted for a block whose values do not show if its id says that they are hidden. -/
def Emission.redacted (hide : String → Bool) (e : Emission) : Emission :=
  { e with
    plan := e.plan.redacted hide
    state := e.state.map (·.redacted (hide e.blockId)) }

variable {hide : String → Bool} {catalog : Catalog} {claimed : Claimed}

/-! ## Plans -/

section

variable {b b' : Block} (same : b'.redacted hide = b.redacted hide)

include same

/-- The settings of two blocks that look the same show the same values. -/
theorem map_shown_settings (template : Option Template) :
    (settings template b').map (·.viewed (shown (hide b.id)))
      = (settings template b).map (·.viewed (shown (hide b.id))) := by
  have id : b'.id = b.id := (congrArg Block.id same :)
  have properties : b'.properties.map (·.redacted (hide b'.id))
      = b.properties.map (·.redacted (hide b.id)) := congrArg Block.properties same
  rw [id] at properties
  exact map_viewed_settings properties

/-- Names are claimed without a look at values. -/
theorem map_redacted_planBlock :
    (planBlock catalog claimed b').map (Prod.map (·.redacted hide) id)
      = (planBlock catalog claimed b).map (Prod.map (·.redacted hide) id) := by
  have id_eq : b'.id = b.id := (congrArg Block.id same :)
  have type_eq : b'.type = b.type := (congrArg Block.type same :)
  have name_eq : b'.name = b.name := (congrArg Block.name same :)
  have outputs_eq : b'.outputs = b.outputs := (congrArg Block.outputs same :)
  unfold planBlock
  rw [type_eq, name_eq, outputs_eq, id_eq]
  cases BlockType.ofTag? b.type with
  | none => rfl
  | some type =>
    dsimp only
    have views := map_shown_settings same (catalog.template? type)
    generalize settings (catalog.template? type) b = mine at views
    generalize settings (catalog.template? type) b' = mine' at views
    have length : mine'.length = mine.length := by simpa using congrArg List.length views
    have keys : mine'.map (keyBase b') = mine.map (keyBase b) := by
      unfold keyBase
      rw [name_eq]
      exact map_name_of_viewed views fun name => b.name ++ "_" ++ name
    have fields (handle : String) :
        mine'.map (paramFieldBase handle) = mine.map (paramFieldBase handle) :=
      map_name_of_viewed views fun name => "p_" ++ handle ++ "_" ++ Text.slug name
    rw [keys, fields, length]
    cases b.outputs.find? fun p => (fieldType? p.dataKind).isNone with
    | some p => rfl
    | none =>
      refine congrArg Except.ok (Prod.ext ?_ rfl)
      show BlockPlan.redacted hide _ = BlockPlan.redacted hide _
      unfold BlockPlan.redacted
      dsimp only
      rw [same, id_eq, map_viewed_paramsOf views]

end

/-- Plans are made for the same names in the same order. -/
theorem map_redacted_planBlocks {blocks blocks' : List Block}
    (same : List.Forall₂ (fun b b' => b'.redacted hide = b.redacted hide) blocks blocks') :
    (planBlocks catalog claimed blocks').map (List.map (·.redacted hide))
      = (planBlocks catalog claimed blocks).map (List.map (·.redacted hide)) := by
  induction same generalizing claimed with
  | nil => rfl
  | cons here _ ih =>
    refine map_bind_congr (map_redacted_planBlock here) fun r r' planned => ?_
    obtain ⟨plan, next⟩ := Prod.mk.inj planned
    show (planBlocks catalog r'.2 _ >>= _).map _ = _
    rw [show r'.2 = r.2 from next]
    refine map_bind_congr ih fun plans plans' others => ?_
    exact congrArg Except.ok (congrArg₂ List.cons plan others)

/-- Plans that look the same are for blocks of the same id. -/
theorem BlockPlan.id_congr {p p' : BlockPlan} (same : p'.redacted hide = p.redacted hide) :
    p'.block.id = p.block.id :=
  (congrArg (·.block.id) same :)

/-! ## Order and wires -/

/-- Plans that look the same are put into the same order. -/
theorem map_redacted_orderPlans {d d' : Definition} {plans plans' : List BlockPlan}
    (same : d'.redacted hide = d.redacted hide)
    (plan : plans'.map (·.redacted hide) = plans.map (·.redacted hide)) :
    (orderPlans d' plans').map (List.map (·.redacted hide))
      = (orderPlans d plans).map (List.map (·.redacted hide)) := by
  have connections : d'.connections = d.connections := (congrArg Definition.connections same :)
  rw [orderPlans_eq, orderPlans_eq, ← orderBy_map, ← orderBy_map,
    Definition.blockIds_congr same, connections, plan]

/-- Wires join outputs and inputs, and nothing else is looked at. -/
theorem wires_congr {plans plans' : List BlockPlan} {b b' : Block}
    (outputs : plans'.flatMap (·.outputs) = plans.flatMap (·.outputs))
    (inputs : b'.inputs = b.inputs) (connections : List Connection) :
    wires plans' b' connections = wires plans b connections := by
  have one (c : Connection) : wire plans' b' c = wire plans b c := by
    unfold wire outputField? Block.input?
    rw [outputs, inputs]
  induction connections with
  | nil => rfl
  | cons c rest ih => rw [wires, wires, one, ih]

/-! ## Emission -/

namespace BlockView

variable {p p' : BlockPlan} (same : p'.redacted hide = p.redacted hide) (ws : List Wire)

include same

theorem params_congr : (mk p' ws).plan.params.map (·.viewed (shown (hide p.block.id)))
    = (mk p ws).plan.params.map (·.viewed (shown (hide p.block.id))) := by
  have params : p'.params.map (·.viewed (shown (hide p'.block.id)))
      = p.params.map (·.viewed (shown (hide p.block.id))) := congrArg BlockPlan.params same
  rwa [BlockPlan.id_congr same] at params

/-- A property is read in the same way, whatever its value is. -/
theorem readProperty_congr : (mk p' ws).readProperty = (mk p ws).readProperty :=
  readProperty_of_viewed (params_congr same ws)

/-- A value that is not hidden is the same. -/
theorem literal_congr (visible : hide p.block.id = false) :
    (mk p' ws).literal = (mk p ws).literal := by
  have params := params_congr same ws
  have whole (params : List Param) : params.map (·.viewed (shown false)) = params := List.map_id' _
  rw [visible, whole, whole] at params
  funext name
  unfold literal param?
  rw [params]

theorem output?_congr : (mk p' ws).output? = (mk p ws).output? := by
  have outputs : p'.outputs = p.outputs := (congrArg BlockPlan.outputs same :)
  funext name
  unfold output?
  rw [outputs]

theorem input?_congr : (mk p' ws).input? = (mk p ws).input? := by
  have inputs : p'.block.inputs = p.block.inputs := (congrArg (·.block.inputs) same :)
  funext name
  unfold input? inputSlot?
  rw [inputs]

theorem stateName_congr : (mk p' ws).stateName = (mk p ws).stateName := by
  have handle : p'.handle = p.handle := (congrArg BlockPlan.handle same :)
  exact congrArg ("s_" ++ ·) handle

theorem has_congr : (mk p' ws).has = (mk p ws).has := by
  funext m
  cases m with
  | property name =>
    have found := congrArg Option.isSome (map_viewed_param? (params_congr same ws) name)
    rwa [Option.isSome_map, Option.isSome_map] at found
  | input name => exact congrArg (fun input => (input name).isSome) (input?_congr same ws)
  | output name => exact congrArg (fun output => (output name).isSome) (output?_congr same ws)

/-- What a block brings to a line does not depend on hidden values. -/
theorem render_congr : (mk p' ws).render = (mk p ws).render := by
  have readInput : (mk p' ws).readInput = (mk p ws).readInput := by
    funext name otherwise
    unfold readInput
    rw [input?_congr same ws]
  funext piece
  cases piece with
  | text => rfl
  | property name => exact congrFun (readProperty_congr same ws) name
  | input name => exact congrFun (congrFun readInput name) fallback
  | inputOr name other =>
    show (mk p' ws).readInput name (fun _ => (mk p' ws).readProperty other) = _
    rw [readInput, readProperty_congr same ws]
    rfl
  | output name =>
    show "self." ++ (((mk p' ws).output? name).map (·.field)).getD "" = _
    rw [output?_congr same ws]
    rfl
  | state => exact congrArg ("self." ++ ·) (stateName_congr same ws)
  | blockId => exact congrArg Text.quote (BlockPlan.id_congr same)

/-- Only the initial value of the state is made from values. -/
theorem emission_congr (r : Rule) :
    ((mk p' ws).emission r).redacted hide = ((mk p ws).emission r).redacted hide := by
  have wireOf : (mk p' ws).wireOf? = (mk p ws).wireOf? := by
    funext m
    cases m with
    | property | output => rfl
    | input name =>
      exact congrArg (fun input => (input name).bind (·.source)) (input?_congr same ws)
  have state (s : StateRule) : ((mk p' ws).stateField s).redacted (hide p.block.id)
      = ((mk p ws).stateField s).redacted (hide p.block.id) := by
    unfold stateField StateField.redacted
    dsimp only
    rw [stateName_congr same ws, readProperty_congr same ws]
    cases visible : hide p.block.id with
    | false => rw [literal_congr same ws visible]
    | true => rfl
  unfold emission Emission.redacted Emission.blockId
  dsimp only
  rw [same, BlockPlan.id_congr same, wireOf, render_congr same ws, Option.map_map, Option.map_map]
  refine congrArg (Emission.mk _ · _ _) (Option.map_congr fun s _ => ?_)
  exact state s

end BlockView

/-- A block is refused or emitted alike. -/
theorem map_redacted_emit {p p' : BlockPlan} (same : p'.redacted hide = p.redacted hide)
    (ws : List Wire) :
    (emit ⟨p', ws⟩).map (·.redacted hide) = (emit ⟨p, ws⟩).map (·.redacted hide) := by
  have type : p'.type = p.type := (congrArg BlockPlan.type same :)
  unfold emit
  dsimp only
  rw [type, BlockPlan.id_congr same, BlockView.has_congr same ws]
  cases (Rule.ofType p.type).members.find? fun m => !(BlockView.mk p ws).has m with
  | some m => rfl
  | none => exact congrArg Except.ok (BlockView.emission_congr same ws _)

section

variable {d d' : Definition} {plans plans' : List BlockPlan}
  (same : d'.redacted hide = d.redacted hide)

include same

/-- What is emitted for all blocks looks the same. -/
theorem map_redacted_emitBlocks {ordered ordered' : List BlockPlan}
    (known : plans'.map (·.redacted hide) = plans.map (·.redacted hide))
    (listed : List.Forall₂ (fun p p' => p'.redacted hide = p.redacted hide) ordered ordered') :
    (emitBlocks d' plans' ordered').map (List.map (·.redacted hide))
      = (emitBlocks d plans ordered).map (List.map (·.redacted hide)) := by
  have incoming : d'.incoming = d.incoming := by
    have connections : d'.connections = d.connections := (congrArg Definition.connections same :)
    funext id
    unfold Definition.incoming
    rw [connections]
  have outputs : plans'.flatMap (·.outputs) = plans.flatMap (·.outputs) := by
    have views := congrArg (List.flatMap (·.outputs)) known
    rwa [List.flatMap_map, List.flatMap_map] at views
  induction listed with
  | nil => rfl
  | @cons p p' _ _ here _ ih =>
    have inputs : p'.block.inputs = p.block.inputs := (congrArg (·.block.inputs) here :)
    rw [emitBlocks, emitBlocks, BlockPlan.id_congr here, incoming, wires_congr outputs inputs]
    cases wires plans p.block (d.incoming p.block.id) with
    | error e => rfl
    | ok ws =>
      show (emit ⟨p', ws⟩ >>= _).map _ = (emit ⟨p, ws⟩ >>= _).map _
      refine map_bind_congr (map_redacted_emit here ws) fun e e' emitted => ?_
      refine map_bind_congr ih fun es es' others => ?_
      exact congrArg Except.ok (congrArg₂ List.cons emitted others)

/-- Strategies that differ in hidden values are refused for the same reason, or what is emitted for
their blocks differs in hidden values. -/
theorem map_redacted_emissions (catalog : Catalog) :
    (emissions catalog d').map (List.map (·.redacted hide))
      = (emissions catalog d).map (List.map (·.redacted hide)) := by
  have blocks : d'.blocks.map (·.redacted hide) = d.blocks.map (·.redacted hide) :=
    congrArg Definition.blocks same
  have planned : (plan catalog d').map (List.map (·.redacted hide))
      = (plan catalog d).map (List.map (·.redacted hide)) :=
    map_redacted_planBlocks (forall₂_of_map_eq blocks)
  refine map_bind_congr planned fun plans plans' known => ?_
  refine map_bind_congr (map_redacted_orderPlans same known) fun ordered ordered' listed => ?_
  exact map_redacted_emitBlocks same known (forall₂_of_map_eq listed)

end

end StrategyCanvas.Code
