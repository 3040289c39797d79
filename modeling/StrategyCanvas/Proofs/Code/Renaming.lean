import StrategyCanvas.Proofs.Code.Erasure

/-!
# Code of renamed strategies

Ids are seen in comments and in literals only, and so are the texts that properties hold. Plans are
made from names, blocks come in the order of their positions, and wires join the ports that they
joined before (`wires_renamed`). What is emitted under other ids and with other texts therefore
looks the same once comments and the contents of literals are erased (`linesOf_renamed`).
-/

namespace StrategyCanvas.Code

open Text

variable {ρ : Renaming} {catalog : Catalog} {d d' : Definition} {plans plans' : List BlockPlan}

/-! ## Plans -/

/-- A setting without the text that is its value. -/
def Setting.untexted (s : Setting) : Setting := { s with value := withoutText s.value }

/-- The field of an output under its new id. -/
def OutputField.renamed (ρ : Renaming) (o : OutputField) : OutputField :=
  { o with portId := ρ.port o.portId }

/-- The plan of a block under its new id. -/
def BlockPlan.renamed (ρ : Renaming) (p : BlockPlan) : BlockPlan :=
  { p with block := p.block.renamed ρ, outputs := p.outputs.map (·.renamed ρ) }

/-- A plan without the texts that are values of parameters. -/
def BlockPlan.untexted (p : BlockPlan) : BlockPlan :=
  { p with block := p.block.untexted, params := p.params.map Param.untexted }

/-- A plan is that of a block under other ids, apart from the texts that are values. -/
def BlockPlan.IsRenamed (ρ : Renaming) (p p' : BlockPlan) : Prop :=
  p'.untexted = (p.renamed ρ).untexted

namespace BlockPlan.IsRenamed

variable {p p' : BlockPlan} (h : p.IsRenamed ρ p')

include h

theorem block : p.block.IsRenamed ρ p'.block := (congrArg BlockPlan.block h :)

theorem type_eq : p'.type = p.type := (congrArg BlockPlan.type h :)

theorem handle_eq : p'.handle = p.handle := (congrArg BlockPlan.handle h :)

/-- The parameters are the same but for texts that are values. -/
theorem params_eq : p'.params.map Param.untexted = p.params.map Param.untexted :=
  (congrArg BlockPlan.params h :)

/-- The outputs have the same fields under new ids. -/
theorem outputs_eq : p'.outputs = p.outputs.map (·.renamed ρ) := (congrArg BlockPlan.outputs h :)

end BlockPlan.IsRenamed

/-- The fields of outputs do not depend on the ids of the ports. -/
theorem outputsOf_renamed (ports : List OutputPort) (fields : List String) :
    outputsOf (ports.map (·.renamed ρ)) fields = (outputsOf ports fields).map (·.renamed ρ) := by
  rw [outputsOf, outputsOf, List.map_map, List.zip_map_left, List.map_map]
  rfl

section

variable {mine mine' : List Setting}
  (views : mine'.map Setting.untexted = mine.map Setting.untexted)

include views

variable {b b' : Block} (same : b.IsRenamed ρ b')

include same

/-- Keys are made from names, and these are the same. -/
theorem map_keyBase_renamed : mine'.map (keyBase b') = mine.map (keyBase b) := by
  unfold keyBase
  rw [same.name_eq]
  exact map_name_of_viewed views fun name => b.name ++ "_" ++ name

/-- Field names are made from names too. -/
theorem fieldBases_renamed (handle : String) :
    mine'.map (paramFieldBase handle) ++ b'.outputs.map (outputFieldBase handle)
      = mine.map (paramFieldBase handle) ++ b.outputs.map (outputFieldBase handle) := by
  have params : mine'.map (paramFieldBase handle) = mine.map (paramFieldBase handle) :=
    map_name_of_viewed views fun name => "p_" ++ handle ++ "_" ++ slug name
  rw [params, same.outputs_eq, List.map_map]
  rfl

end

/-- Names are claimed without a look at ids and texts. -/
theorem isRenamed_of_planBlock {claimed next next' : Claimed} {b b' : Block} {p p' : BlockPlan}
    (same : b.IsRenamed ρ b') (h : planBlock catalog claimed b = .ok (p, next))
    (h' : planBlock catalog claimed b' = .ok (p', next')) : p.IsRenamed ρ p' ∧ next' = next := by
  unfold planBlock at h h'
  rw [same.type_eq, same.name_eq] at h'
  split at h
  · contradiction
  · rename_i type parsed
    rw [parsed] at h'
    dsimp only at h h'
    have views : (settings (catalog.template? type) b').map Setting.untexted
        = (settings (catalog.template? type) b).map Setting.untexted :=
      map_viewed_settings same.untexted_properties_eq
    generalize settings (catalog.template? type) b = mine at h views
    generalize settings (catalog.template? type) b' = mine' at h' views
    have length : mine'.length = mine.length := by
      simpa using congrArg List.length views
    have params (keys fields : List String) : (paramsOf mine' keys fields).map Param.untexted
        = (paramsOf mine keys fields).map Param.untexted := map_viewed_paramsOf views keys fields
    rw [map_keyBase_renamed views same, fieldBases_renamed views same, length] at h'
    split at h
    · contradiction
    · split at h'
      · contradiction
      · obtain ⟨rfl, rfl⟩ := Prod.mk.inj (Except.ok.inj h)
        obtain ⟨rfl, rfl⟩ := Prod.mk.inj (Except.ok.inj h')
        refine ⟨?_, rfl⟩
        unfold BlockPlan.IsRenamed BlockPlan.untexted BlockPlan.renamed
        dsimp only
        rw [params, same.outputs_eq, outputsOf_renamed]
        rw [show b'.untexted = (b.renamed ρ).untexted from same]

/-- Blocks that are the same under new ids have plans that are the same under new ids: no name is
claimed because of an id. -/
theorem forall₂_of_planBlocks {claimed : Claimed} {blocks blocks' : List Block}
    (same : List.Forall₂ (Block.IsRenamed ρ) blocks blocks')
    (h : planBlocks catalog claimed blocks = .ok plans)
    (h' : planBlocks catalog claimed blocks' = .ok plans') :
    List.Forall₂ (BlockPlan.IsRenamed ρ) plans plans' := by
  induction same generalizing claimed plans plans' with
  | nil =>
    obtain rfl := Except.ok.inj h
    obtain rfl := Except.ok.inj h'
    exact .nil
  | cons here _ ih =>
    obtain ⟨⟨p, next⟩, made, h⟩ := bind_eq_ok_iff.mp h
    obtain ⟨rest, others, h⟩ := bind_eq_ok_iff.mp h
    obtain rfl := Except.ok.inj h
    obtain ⟨⟨p', next'⟩, made', h'⟩ := bind_eq_ok_iff.mp h'
    obtain ⟨rest', others', h'⟩ := bind_eq_ok_iff.mp h'
    obtain rfl := Except.ok.inj h'
    obtain ⟨renamed, rfl⟩ := isRenamed_of_planBlock here made made'
    exact .cons renamed (ih others others')

/-! ## Order -/

section

variable (same : d'.untexted = (d.renamed ρ).untexted) (sound : d.IsSound) (sound' : d'.IsSound)

include same sound sound'

/-- No block is given the name of another one at the end of a connection. -/
theorem eq_of_end_eq {c : Connection} (mem : c ∈ d.connections) {a : String}
    (known : a ∈ d.blockIds) :
    (ρ.block a = ρ.block c.sourceBlockId → a = c.sourceBlockId)
      ∧ (ρ.block a = ρ.block c.targetBlockId → a = c.targetBlockId) := by
  have some : d.blocks ≠ [] := by
    obtain ⟨b, mem, -⟩ := List.mem_map.mp known
    exact List.ne_nil_of_mem mem
  obtain ⟨source, target⟩ := sound.ends_mem some mem
  exact ⟨Definition.eq_of_block_eq same sound' known source,
    Definition.eq_of_block_eq same sound' known target⟩

/-- The order of execution is the same under new ids. -/
theorem forall₂_of_orderPlans {ordered ordered' : List BlockPlan}
    (renamed : List.Forall₂ (BlockPlan.IsRenamed ρ) plans plans')
    (h : orderPlans d plans = .ok ordered) (h' : orderPlans d' plans' = .ok ordered') :
    List.Forall₂ (BlockPlan.IsRenamed ρ) ordered ordered' := by
  have apart : ∀ e ∈ d.connections.map (·.ends), ∀ a ∈ d.blockIds,
      (ρ.block a = ρ.block e.1 → a = e.1) ∧ (ρ.block a = ρ.block e.2 → a = e.2) := by
    rw [List.forall_mem_map]
    exact fun c mem a known => eq_of_end_eq same sound sound' mem known
  have views : plans'.map BlockPlan.untexted = plans.map fun p => (p.renamed ρ).untexted :=
    map_eq_of_forall₂ (fun _ _ same => same) renamed
  -- with the ids renamed back, both orders are found for the same ids and the same ends
  rw [orderPlans_eq] at h h'
  rw [Definition.blockIds_eq_renamed same, Definition.ends_eq_renamed same,
    orderBy_map_ids apart] at h'
  have results := congrArg (orderBy d.blockIds (d.connections.map (·.ends))) views
  rw [orderBy_map, orderBy_map, h, h'] at results
  exact forall₂_of_map_eq (Except.ok.inj results)

/-! ## Wires -/

/-- The connections into a block are those into the renamed block, under new ids. -/
theorem incoming_renamed {id : String} (known : id ∈ d.blockIds) :
    d'.incoming (ρ.block id) = (d.incoming id).map (·.renamed ρ) := by
  unfold Definition.incoming
  rw [Definition.connections_eq_renamed same, List.filter_map]
  refine congrArg (List.map _) (List.filter_congr fun c mem => ?_)
  have back := (eq_of_end_eq same sound sound' mem known).2
  show decide (ρ.block c.targetBlockId = ρ.block id) = decide (c.targetBlockId = id)
  rw [decide_eq_decide]
  exact ⟨fun equal => (back equal.symm).symm, congrArg ρ.block⟩

end

/-- The wire of a connection under its new id. -/
def Wire.renamed (ρ : Renaming) (w : Wire) : Wire :=
  { w with connectionId := ρ.connection w.connectionId }

/-- An input is found under its new id. -/
theorem input?_of_renamed (sound' : d'.IsSound) {b b' : Block} (mem' : b' ∈ d'.blocks)
    (block : b.IsRenamed ρ b') {id : String} {port : InputPort} (h : b.input? id = some port) :
    b'.input? (ρ.port id) = some (port.renamed ρ) := by
  refine (find?_key_eq_some_iff (sound'.distinct.nodup_inputs mem')).mpr ⟨?_, ?_⟩
  · rw [block.inputs_eq]
    exact List.mem_map_of_mem (List.mem_of_find?_eq_some h)
  · exact congrArg ρ.port (key_of_find? h)

/-- The field of an output is found under the new id of the port. -/
theorem outputField?_of_renamed (sound' : d'.IsSound) (planned' : Planned catalog plans' d'.blocks)
    (renamed : List.Forall₂ (BlockPlan.IsRenamed ρ) plans plans') {id : String}
    {output : OutputField} (h : outputField? plans id = some output) :
    outputField? plans' (ρ.port id) = some (output.renamed ρ) := by
  have outputs : plans'.flatMap (·.outputs) = (plans.flatMap (·.outputs)).map (·.renamed ρ) := by
    rw [List.map_flatMap]
    exact flatMap_eq_of_forall₂ (fun _ _ same => same.outputs_eq) renamed
  have ids : (plans'.flatMap (·.outputs)).map (·.portId)
      = (d'.blocks.flatMap (·.outputs)).map (·.id) := by
    have views := congrArg (List.map Prod.fst) planned'.outputs_eq
    rwa [List.map_map, List.map_map] at views
  have distinct : ((plans'.flatMap (·.outputs)).reverse.map (·.portId)).Nodup := by
    rw [List.map_reverse, List.nodup_reverse, ids]
    exact sound'.distinct.nodup_outputs
  refine (find?_key_eq_some_iff distinct).mpr ⟨?_, ?_⟩
  · rw [List.mem_reverse, outputs]
    exact List.mem_map_of_mem (List.mem_reverse.mp (List.mem_of_find?_eq_some h))
  · exact congrArg ρ.port (key_of_find? h)

section

variable (sound : d.IsSound) (sound' : d'.IsSound) (planned : Planned catalog plans d.blocks)
  (planned' : Planned catalog plans' d'.blocks)
  (renamed : List.Forall₂ (BlockPlan.IsRenamed ρ) plans plans') {b b' : Block} (mem : b ∈ d.blocks)
  (mem' : b' ∈ d'.blocks) (block : b.IsRenamed ρ b')

include sound sound' planned planned' renamed mem mem' block

/-- A connection joins the ports that it has joined before, whatever they are called. -/
theorem wire_renamed {c : Connection} (hc : c ∈ d.incoming b.id) :
    ∃ w, wire plans b c = .ok (some w)
      ∧ wire plans' b' (c.renamed ρ) = .ok (some (w.renamed ρ)) := by
  obtain ⟨port, output, expr, input, found, converted, wired⟩ := exists_wire planned sound mem hc
  have input' : b'.input? (ρ.port c.targetInputId) = some (port.renamed ρ) :=
    input?_of_renamed sound' mem' block input
  have found' : outputField? plans' (ρ.port c.sourceOutputId) = some (output.renamed ρ) :=
    outputField?_of_renamed sound' planned' renamed found
  have converted' : convert? (output.renamed ρ).field (output.renamed ρ).kind
      (port.renamed ρ).dataKind = some expr := converted
  refine ⟨_, wired, ?_⟩
  unfold wire
  rw [show (c.renamed ρ).targetInputId = ρ.port c.targetInputId from rfl,
    show (c.renamed ρ).sourceOutputId = ρ.port c.sourceOutputId from rfl, input', found']
  dsimp only
  rw [converted']
  rfl

/-- The wires of a block are the same under new ids. -/
theorem wires_renamed {connections : List Connection}
    (into : ∀ c ∈ connections, c ∈ d.incoming b.id) {ws : List Wire}
    (h : wires plans b connections = .ok ws) :
    wires plans' b' (connections.map (·.renamed ρ)) = .ok (ws.map (·.renamed ρ)) := by
  induction connections generalizing ws with
  | nil =>
    obtain rfl := Except.ok.inj h
    rfl
  | cons c rest ih =>
    obtain ⟨hc, into⟩ := List.forall_mem_cons.mp into
    obtain ⟨here, made, h⟩ := bind_eq_ok_iff.mp h
    obtain ⟨there, others, h⟩ := bind_eq_ok_iff.mp h
    obtain rfl := Except.ok.inj h
    obtain ⟨w, wired, wired'⟩ :=
      wire_renamed sound sound' planned planned' renamed mem mem' block hc
    rw [wired] at made
    obtain rfl := Except.ok.inj made
    exact bind_eq_ok_iff.mpr ⟨_, wired', bind_eq_ok_iff.mpr ⟨_, ih into others, rfl⟩⟩

end

/-! ## Emission -/

namespace BlockView

variable {v v' : BlockView} {fields : List String} {r : Rule}

section

variable (plan : v.plan.IsRenamed ρ v'.plan) (wires : v'.wires = v.wires.map (·.renamed ρ))

include plan

/-- A parameter is found by the name of its property, which is the same. -/
theorem param?_renamed (name : String) :
    (v'.param? name).map Param.untexted = (v.param? name).map Param.untexted :=
  map_viewed_param? plan.params_eq name

/-- A property is read through the same field. -/
theorem readProperty_renamed : v'.readProperty = v.readProperty :=
  readProperty_of_viewed plan.params_eq

/-- Literals are the same once their texts are erased. -/
theorem erased_literal_renamed (name : String) :
    erased (v'.literal name) = erased (v.literal name) := by
  have view (v : BlockView) : erased (v.literal name)
      = (((v.param? name).map Param.untexted).map fun p => erased p.literal).getD "" := by
    unfold literal
    cases v.param? name with
    | none => rfl
    | some p => exact p.erased_literal_untexted.symm
  rw [view, view, param?_renamed plan]

/-- An output is found by its name, which is the same. -/
theorem output?_renamed (name : String) : v'.output? name = (v.output? name).map (·.renamed ρ) := by
  unfold output?
  rw [plan.outputs_eq, List.find?_map]
  rfl

theorem stateName_renamed : v'.stateName = v.stateName := congrArg ("s_" ++ ·) plan.handle_eq

include wires

/-- An input is fed from the renamed source, if at all. -/
theorem input?_renamed (name : String) : v'.input? name
    = (v.input? name).map fun slot => ⟨slot.kind, slot.source.map (·.renamed ρ)⟩ := by
  unfold input? inputSlot?
  rw [plan.block.inputs_eq, wires, ← List.map_reverse, ← List.map_reverse, List.find?_map,
    List.find?_map, Option.map_map, Option.map_map]
  rfl

/-- An input is read through the same field, as fields have no ids in them. -/
theorem readInput_renamed : v'.readInput = v.readInput := by
  funext name otherwise
  unfold readInput
  rw [input?_renamed plan wires]
  cases v.input? name with
  | none => rfl
  | some slot => cases source : slot.source <;> simp [source, Wire.renamed]

/-- Of all that a block brings to a line, only its own id is another one. -/
theorem render_renamed (piece : Piece) : piece = .blockId ∨ v'.render piece = v.render piece := by
  cases piece with
  | text => exact .inr rfl
  | property name => exact .inr (congrFun (readProperty_renamed plan) name)
  | input name => exact .inr (congrFun (congrFun (readInput_renamed plan wires) name) fallback)
  | inputOr name other =>
    right
    show v'.readInput name (fun _ => v'.readProperty other) = _
    rw [readInput_renamed plan wires, readProperty_renamed plan]
    rfl
  | output name =>
    right
    show "self." ++ ((v'.output? name).map (·.field)).getD "" = _
    rw [output?_renamed plan, Option.map_map]
    rfl
  | state => exact .inr (congrArg ("self." ++ ·) (stateName_renamed plan))
  | blockId => exact .inl rfl

/-- A line of a rule is the same once the texts in it are erased. -/
theorem erased_line_renamed {pieces : List Piece}
    (closed : ∀ piece ∈ pieces, IsClosed fields (v.render piece)) :
    erased (v'.line pieces) = erased (v.line pieces) := by
  have closed' : ∀ piece ∈ pieces, IsClosed fields (v'.render piece) := by
    intro piece mem
    rcases render_renamed plan wires piece with rfl | same
    · exact isClosed_quote _
    · rw [same]
      exact closed piece mem
  have parts (v : BlockView) (closed : ∀ piece ∈ pieces, IsClosed fields (v.render piece)) :
      erased (v.line pieces) = String.join (pieces.map fun piece => erased (v.render piece)) := by
    rw [line, erased_join (List.forall_mem_map.mpr closed), List.map_map]
    rfl
  rw [parts v closed, parts v' closed']
  refine congrArg String.join (List.map_congr_left fun piece _ => ?_)
  rcases render_renamed plan wires piece with rfl | same
  · exact (erased_quote _).trans (erased_quote _).symm
  · rw [same]

/-- The statements of a rule are the same once their texts are erased. -/
theorem map_erased_update_renamed (known : v.IsKnown r fields) (spaced : r.isSpaced = true) :
    (v'.emission r).update.map Statement.erased = (v.emission r).update.map Statement.erased := by
  have view (strokes : List (Stroke String)) : (statements strokes).map Statement.erased
      = statements (strokes.map (Stroke.map erased)) := by
    rw [statements, statements, lay_map_erased, List.map_map, List.map_map]
    rfl
  unfold emission
  dsimp only
  rw [view, view, List.map_map, List.map_map]
  refine congrArg statements (List.map_congr_left fun s mem => ?_)
  have line (pieces : List Piece) (text : s.text? = some pieces) :
      erased (v'.line pieces) = erased (v.line pieces) := by
    obtain ⟨apart, given⟩ := isClosed_given known spaced mem text
    exact erased_line_renamed plan wires (forall_isClosed apart v.render_of_fixed? given)
  cases s with
  | line pieces => exact congrArg Stroke.line (line pieces rfl)
  | lineAt extra pieces => exact congrArg (Stroke.lineAt extra) (line pieces rfl)
  | blank => rfl
  | opening pieces => exact congrArg Stroke.opening (line pieces rfl)
  | closing pieces => exact congrArg Stroke.closing (line pieces rfl)

omit wires in
/-- The state is made in the same way, apart from texts. -/
theorem erased_stateField_renamed {s : StateRule}
    (spaced : Text.isSpaced (s.make.map (·.fixed?)) = true) :
    (v'.stateField s).erased = (v.stateField s).erased := by
  have parts (v : BlockView) : erased (renderState v.literal s.make)
      = String.join (s.make.map fun piece => erased (renderStatePiece v.literal piece)) := by
    have closed : ∀ piece ∈ s.make, IsClosed [] (renderStatePiece v.literal piece) :=
      forall_isClosed spaced (renderStatePiece_of_fixed? v.literal) fun piece _ =>
        isClosed_renderStatePiece v.isClosed_literal piece
    rw [renderState_eq, erased_join (List.forall_mem_map.mpr closed), List.map_map]
    rfl
  have initializer : erased (renderState v'.literal s.make)
      = erased (renderState v.literal s.make) := by
    rw [parts, parts]
    refine congrArg String.join (List.map_congr_left fun piece _ => ?_)
    cases piece with
    | text => rfl
    | property name => exact erased_literal_renamed plan name
  unfold stateField StateField.erased
  dsimp only
  rw [initializer, readProperty_renamed plan, stateName_renamed plan]

/-- Under other ids and with other texts, a block is emitted alike. -/
theorem looksLike_renamed (known : v.IsKnown r fields) (spaced : r.isSpaced = true) :
    (v.emission r).LooksLike (v'.emission r) where
  params := plan.params_eq
  outputs := by
    show v'.plan.outputs.map OutputField.unported = v.plan.outputs.map OutputField.unported
    rw [plan.outputs_eq, List.map_map]
    rfl
  state := by
    have checked := (Bool.and_eq_true_iff.mp spaced).1
    unfold emission
    dsimp only
    cases state : r.state with
    | none => rfl
    | some s =>
      rw [state, Option.all_some, Bool.and_eq_true] at checked
      exact congrArg some (erased_stateField_renamed plan checked.2)
  update := map_erased_update_renamed plan wires known spaced

end

end BlockView

/-! ## Compilation -/

section

variable {o : Options} {compiled compiled' : Compiled} {es es' : List Emission}

/-- What is emitted for a block looks like what is emitted for the renamed block. -/
theorem Compiles.looksLike (h : Compiles o catalog d compiled plans es)
    (h' : Compiles o catalog d' compiled' plans' es') (same : d'.untexted = (d.renamed ρ).untexted)
    (renamed : List.Forall₂ (BlockPlan.IsRenamed ρ) plans plans') {e e' : Emission} (mem : e ∈ es)
    (mem' : e' ∈ es') (plan : e.plan.IsRenamed ρ e'.plan) : e.LooksLike e' := by
  have planned := (planned_of_plan h.planned).1
  have planned' := (planned_of_plan h'.planned).1
  obtain ⟨known, ws, wired, emitted⟩ := h.arranged.emits e mem
  obtain ⟨known', ws', wired', emitted'⟩ := h'.arranged.emits e' mem'
  obtain ⟨b, listed, isFor⟩ := planned.exists_isFor e.plan known
  obtain ⟨b', listed', isFor'⟩ := planned'.exists_isFor e'.plan known'
  have view := emits_view planned h.sound known wired emitted
  have view' := emits_view planned' h'.sound known' wired' emitted'
  have wires : ws' = ws.map (·.renamed ρ) := by
    have block : b.IsRenamed ρ b' := by
      rw [← isFor.block, ← isFor'.block]
      exact plan.block
    rw [isFor.block] at wired
    rw [isFor'.block, block.id_eq,
      incoming_renamed same h.sound h'.sound (List.mem_map_of_mem listed)] at wired'
    have there := wires_renamed h.sound h'.sound planned planned' renamed listed listed' block
      (fun _ mem => mem) wired
    rw [there] at wired'
    exact (Except.ok.inj wired').symm
  have known : (BlockView.mk e.plan ws).IsKnown _ _ := h.isKnown mem view
  have alike : (BlockView.emission ⟨e.plan, ws⟩ _).LooksLike
      (BlockView.emission ⟨e'.plan, ws'⟩ _) :=
    BlockView.looksLike_renamed plan wires known (Rule.isSpaced_ofType _)
  rw [view.emission, view'.emission, plan.type_eq]
  exact alike

/-- Blocks are emitted in the same order, and each of them looks as it did before. -/
theorem forall₂_looksLike (h : Compiles o catalog d compiled plans es)
    (h' : Compiles o catalog d' compiled' plans' es') (same : d'.untexted = (d.renamed ρ).untexted)
    (emitted : emissions catalog d = .ok es) (emitted' : emissions catalog d' = .ok es') :
    List.Forall₂ Emission.LooksLike es es' := by
  obtain ⟨found, planned, emitted⟩ := bind_eq_ok_iff.mp emitted
  obtain ⟨ordered, arranged, emitted⟩ := bind_eq_ok_iff.mp emitted
  obtain rfl := Except.ok.inj (h.planned.symm.trans planned)
  obtain ⟨found', planned', emitted'⟩ := bind_eq_ok_iff.mp emitted'
  obtain ⟨ordered', arranged', emitted'⟩ := bind_eq_ok_iff.mp emitted'
  obtain rfl := Except.ok.inj (h'.planned.symm.trans planned')
  have blocks : List.Forall₂ (Block.IsRenamed ρ) d.blocks d'.blocks :=
    forall₂_of_map_eq (Definition.untexted_blocks_eq same)
  have renamed : List.Forall₂ (BlockPlan.IsRenamed ρ) plans plans' :=
    forall₂_of_planBlocks blocks planned planned'
  have order : List.Forall₂ (BlockPlan.IsRenamed ρ) (es.map (·.plan)) (es'.map (·.plan)) := by
    rw [map_plan_of_emits (emits_of_emitBlocks emitted),
      map_plan_of_emits (emits_of_emitBlocks emitted')]
    exact forall₂_of_orderPlans same h.sound h'.sound renamed arranged arranged'
  rw [List.forall₂_map_left_iff, List.forall₂_map_right_iff] at order
  refine (forall₂_with_mem order).imp fun e e' ⟨mem, mem', plan⟩ => ?_
  exact h.looksLike h' same renamed mem mem' plan

/-- Strategies that differ in their ids, their names and the texts of their properties compile to
the same lines, but for comments and the contents of literals, and none of those runs on over the
end of its line: no id, no name and no text gets out of the comment or the literal that it stands
in. The renaming need not be injective, since the ids of what compiles are distinct. -/
theorem linesOf_renamed (o : Options) (catalog : Catalog) {d d' : Definition} {ρ : Renaming}
    {compiled compiled' : Compiled} (same : d'.untexted = (d.renamed ρ).untexted)
    (h : compile o catalog d = .ok compiled) (h' : compile o catalog d' = .ok compiled') :
    (linesOf compiled'.code).length = (linesOf compiled.code).length
    ∧ (linesOf compiled'.code).map (visible .code) = (linesOf compiled.code).map (visible .code)
    ∧ linesOf (erased compiled.code) = (linesOf compiled.code).map (visible .code)
    ∧ linesOf (erased compiled'.code) = (linesOf compiled'.code).map (visible .code) := by
  obtain ⟨checked, -, es, emitted, -⟩ := compile_eq_ok h
  obtain ⟨-, -, es', emitted', -⟩ := compile_eq_ok h'
  obtain ⟨plans, comp⟩ := exists_compiles_of_emissions h emitted
  obtain ⟨plans', comp'⟩ := exists_compiles_of_emissions h' emitted'
  have lines := comp.map_visible_eq comp' (forall₂_looksLike comp comp' same emitted emitted')
  have length := congrArg List.length lines
  rw [List.length_map, List.length_map] at length
  exact ⟨length, lines, comp.linesOf_erased checked, comp'.linesOf_erased checked⟩

end

/-- Ids with quotes, escapes, line feeds and comments in them. -/
def outlandish : Renaming where
  block id := id ++ "\"; // \\"
  port id := "\\\"\n" ++ id
  connection id := "\n\x7d\n" ++ id

/-- A strategy that logs a price under other ids, with the text of code in its texts. -/
def outlandishLog : Definition :=
  { priceLog.renamed outlandish with
    id := "\"\n"
    name := "Log\n\x7d\nfn log() \x7b"
    blocks := priceLog.blocks.map fun b =>
      { b.renamed outlandish with
        properties := b.properties.map fun p =>
          { p with value := some (.text "\".to_string(); // \\\n") } } }

/-- Ids and texts with quotes, comments and line feeds in them leave no trace outside literals and
comments. -/
theorem linesOf_outlandishLog : ∃ compiled compiled',
    compile .default ⟨[]⟩ priceLog = .ok compiled
    ∧ compile .default ⟨[]⟩ outlandishLog = .ok compiled'
    ∧ (linesOf compiled'.code).map (visible .code) = (linesOf compiled.code).map (visible .code)
    ∧ linesOf (erased compiled'.code) = linesOf (erased compiled.code) := by
  obtain ⟨compiled, h⟩ := isOk_compile_priceLog
  obtain ⟨compiled', h'⟩ : ∃ compiled', compile .default ⟨[]⟩ outlandishLog = .ok compiled' :=
    exists_of_isSome_toOption (by decide +kernel)
  have same : outlandishLog.untexted = (priceLog.renamed outlandish).untexted := rfl
  obtain ⟨-, lines, erased, erased'⟩ := linesOf_renamed .default ⟨[]⟩ same h h'
  exact ⟨compiled, compiled', h, h', lines, erased'.trans (lines.trans erased.symm)⟩

end StrategyCanvas.Code
