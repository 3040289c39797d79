import StrategyCanvas.Proofs.Code.ConnectionLocations
import StrategyCanvas.Proofs.Code.DeclaredFields
import StrategyCanvas.Proofs.Finding.Reordering

/-!
# Compilation of reordered connections

Reordering connections renames nothing: plans are made from blocks alone, and the order of the
blocks depends on which connections there are. What is emitted of a block besides its update does
not depend on how it is wired (`Emits.outline_eq`). The update does, as the last connection into an
input wins, but only where connections meet (`emit_eq_of_perm`).
-/

namespace StrategyCanvas.Code

open Text

variable {o : Options} {catalog : Catalog} {d : Definition} {cs : List Connection}
  {plans ordered : List BlockPlan} {es es' : List Emission}

/-! ## Outlines -/

/-- What is emitted of a block however it is wired. -/
def Emission.outline (e : Emission) : Emission := { e with update := [], reads := [] }

/-- The outline that a plan gives. -/
def BlockPlan.outline (p : BlockPlan) : Emission where
  plan := p
  state := (Rule.ofType p.type).state.map (BlockView.mk p []).stateField
  update := []
  reads := []

theorem Emits.outline_eq {p : BlockPlan} {e : Emission} (h : Emits d plans p e) :
    e.outline = p.outline := by
  obtain ⟨ws, -, emitted⟩ := h
  rw [(emit_eq_ok_iff.mp emitted).2]
  rfl

/-- The lines that declare fields are those of the outlines. -/
theorem Program.structureLines_text {p : Program}
    (tidy : ∀ entry ∈ p.entries, IsOneLine entry.text) (unit : Nat) :
    structureLines (linesOf (p.text unit)) = (p.blocks.map Emission.outline).flatMap fun e =>
      e.declarations.map fun entry => List.replicate unit ' ' ++ entry.text.toList := by
  rw [structureLines_linesOf_text tidy, Program.declarations, List.map_flatMap, List.flatMap_map]
  rfl

/-! ## Wires -/

/-- Wires are made one by one. -/
theorem wires_eq_filterMap {b : Block} {connections : List Connection} {ws : List Wire}
    (h : wires plans b connections = .ok ws) :
    ws = connections.filterMap fun c => (wire plans b c).toOption.join := by
  induction connections generalizing ws with
  | nil => exact (Except.ok.inj h).symm
  | cons c rest ih =>
    obtain ⟨here, made, h⟩ := bind_eq_ok_iff.mp h
    obtain ⟨there, others, h⟩ := bind_eq_ok_iff.mp h
    obtain rfl := Except.ok.inj h
    rw [ih others, List.filterMap_cons, made]
    cases here <;> rfl

/-- Wires of connections that do not meet have different slugs. -/
theorem nodup_slugs {b : Block} {ws : List Wire} (planned : Planned catalog plans d.blocks)
    (sound : d.IsSound) (mem : b ∈ d.blocks)
    (apart : d.connections.Pairwise fun c e => ¬ c.Meets d.blocks e)
    (h : wires plans b (d.incoming b.id) = .ok ws) : (ws.map (·.slug)).Nodup := by
  rw [List.Nodup, List.pairwise_map]
  refine pairwise_of_forall₂ (joins_of_wires planned sound mem h)
    (apart.sublist List.filter_sublist) ?_
  intro c hc e he w v joins joins' meet same
  obtain ⟨p, _, joins⟩ := joins
  obtain ⟨q, _, joins'⟩ := joins'
  have target : c.targetBlockId = b.id := of_decide_eq_true (List.mem_filter.mp hc).2
  have target' : e.targetBlockId = b.id := of_decide_eq_true (List.mem_filter.mp he).2
  have slugs : slug p.name = slug q.name := joins.slug.symm.trans (same.trans joins'.slug)
  exact meet (.inr ⟨b, mem, target, target', p, List.mem_of_find?_eq_some joins.input_found,
    q, List.mem_of_find?_eq_some joins'.input_found, key_of_find? joins.input_found,
    key_of_find? joins'.input_found, slugs⟩)

/-- Of wires with different slugs, the order does not matter. -/
theorem emit_eq_of_perm {p : BlockPlan} {ws ws' : List Wire} (distinct : (ws.map (·.slug)).Nodup)
    (perm : ws.Perm ws') : emit ⟨p, ws⟩ = emit ⟨p, ws'⟩ := by
  have input : (BlockView.mk p ws).input? = (BlockView.mk p ws').input? := by
    funext name
    have distinct' : (ws.reverse.map (·.slug)).Nodup := by
      rwa [List.map_reverse, List.nodup_reverse]
    have perm' : ws.reverse.Perm ws'.reverse :=
      (ws.reverse_perm.trans perm).trans ws'.reverse_perm.symm
    show inputSlot? p.block ws name = inputSlot? p.block ws' name
    unfold inputSlot?
    rw [find?_key_perm distinct' perm']
  have has : (BlockView.mk p ws).has = (BlockView.mk p ws').has := by
    funext m
    cases m with
    | property | output => rfl
    | input name => exact congrArg (fun input => (input name).isSome) input
  have readInput : (BlockView.mk p ws).readInput = (BlockView.mk p ws').readInput := by
    funext name otherwise
    unfold BlockView.readInput
    rw [input]
  have render : (BlockView.mk p ws).render = (BlockView.mk p ws').render := by
    funext piece
    cases piece with
    | text | property | output | state | blockId => rfl
    | input name => exact congrFun (congrFun readInput name) fallback
    | inputOr name other =>
      exact congrFun (congrFun readInput name) fun _ => (BlockView.mk p ws).readProperty other
  have wireOf : (BlockView.mk p ws).wireOf? = (BlockView.mk p ws').wireOf? := by
    funext m
    cases m with
    | property | output => rfl
    | input name => exact congrArg (fun input => (input name).bind (·.source)) input
  unfold emit BlockView.emission
  rw [has, render, wireOf]
  rfl

/-! ## Blocks -/

theorem orderPlans_rewired (perm : d.connections.Perm cs) (plans : List BlockPlan) :
    orderPlans (d.rewired cs) plans = orderPlans d plans := by
  rw [orderPlans_eq, orderPlans_eq, orderBy, orderBy,
    Flow.order_congr (Definition.edge_rewired perm)]
  rfl

/-- In any order of the connections, the same plans are emitted one after the other. -/
theorem map_outline_rewired (perm : d.connections.Perm cs) (h : emissions catalog d = .ok es)
    (h' : emissions catalog (d.rewired cs) = .ok es') :
    es'.map Emission.outline = es.map Emission.outline := by
  obtain ⟨plans, found, h⟩ := bind_eq_ok_iff.mp h
  obtain ⟨ordered, arranged, h⟩ := bind_eq_ok_iff.mp h
  obtain ⟨plans', found', h'⟩ := bind_eq_ok_iff.mp h'
  obtain ⟨ordered', arranged', h'⟩ := bind_eq_ok_iff.mp h'
  obtain rfl : plans = plans' := Except.ok.inj (found.symm.trans found')
  rw [orderPlans_rewired perm, arranged] at arranged'
  obtain rfl := Except.ok.inj arranged'
  rw [map_eq_of_forall₂ (fun _ _ emits => emits.outline_eq) (emits_of_emitBlocks h),
    map_eq_of_forall₂ (fun _ _ emits => emits.outline_eq) (emits_of_emitBlocks h')]

/-- Blocks are emitted in the same way if each of them is. -/
theorem emitBlocks_congr {d' : Definition} (same : ∀ p ∈ ordered, ∃ ws ws',
      wires plans p.block (d.incoming p.block.id) = .ok ws
      ∧ wires plans p.block (d'.incoming p.block.id) = .ok ws' ∧ emit ⟨p, ws⟩ = emit ⟨p, ws'⟩) :
    emitBlocks d plans ordered = emitBlocks d' plans ordered := by
  induction ordered with
  | nil => rfl
  | cons p rest ih =>
    obtain ⟨⟨ws, ws', wired, wired', emitted⟩, others⟩ := List.forall_mem_cons.mp same
    rw [emitBlocks, emitBlocks, wired, wired', ih others]
    show (emit ⟨p, ws⟩ >>= _) = (emit ⟨p, ws'⟩ >>= _)
    rw [emitted]

/-- If no connections meet, the same is emitted in any order of them. -/
theorem emissions_rewired (perm : d.connections.Perm cs) (sound : d.IsSound)
    (sound' : (d.rewired cs).IsSound)
    (apart : d.connections.Pairwise fun c e => ¬ c.Meets d.blocks e)
    (h : emissions catalog d = .ok es) : emissions catalog (d.rewired cs) = .ok es := by
  obtain ⟨plans, found, h⟩ := bind_eq_ok_iff.mp h
  obtain ⟨ordered, arranged, h⟩ := bind_eq_ok_iff.mp h
  obtain ⟨planned, length⟩ := planned_of_plan found
  have known : ∀ p ∈ ordered, p.block ∈ d.blocks := by
    intro p listed
    obtain ⟨b, mem, isFor⟩ :=
      planned.exists_isFor p ((mem_orderPlans_iff length arranged).mp listed)
    rwa [isFor.block]
  have arranged' : orderPlans (d.rewired cs) plans = .ok ordered := by
    rw [orderPlans_rewired perm, arranged]
  refine bind_eq_ok_iff.mpr ⟨plans, found, bind_eq_ok_iff.mpr ⟨ordered, arranged', ?_⟩⟩
  rw [← h]
  refine (emitBlocks_congr fun p listed => ?_).symm
  have mem := known p listed
  obtain ⟨ws, wired⟩ := exists_wires_incoming planned sound mem
  obtain ⟨ws', wired'⟩ := exists_wires_incoming (d := d.rewired cs) planned sound' mem
  refine ⟨ws, ws', wired, wired', emit_eq_of_perm (nodup_slugs planned sound mem apart wired) ?_⟩
  rw [wires_eq_filterMap wired, wires_eq_filterMap wired']
  exact (perm.filter _).filterMap _

/-! ## Source maps -/

/-- Where ids of connections are distinct, each connection gets its own anchor. -/
theorem anchorMarks_eq_filterMap {locations : String → List Location} {known : List String}
    {connections : List Connection} (distinct : (connections.map (·.id)).Nodup) :
    anchorMarks locations known connections = connections.filterMap fun c =>
      if c.id ∈ known then none else (anchor? (locations c.targetBlockId)).map (c.id, ·) := by
  induction connections generalizing known with
  | nil => rfl
  | cons c rest ih =>
    rw [List.map_cons, List.nodup_cons] at distinct
    obtain ⟨new, distinct⟩ := distinct
    -- later connections have other ids, so it does not matter to them that this one is known
    have later : anchorMarks locations (c.id :: known) rest = anchorMarks locations known rest := by
      rw [ih distinct, ih distinct]
      refine List.filterMap_congr fun e mem => ?_
      have other : e.id ≠ c.id := fun same => new (same ▸ List.mem_map_of_mem mem)
      simp [other]
    unfold anchorMarks
    rw [List.filterMap_cons, later, ih distinct]
    split
    · rfl
    · cases anchor? (locations c.targetBlockId) <;> rfl

/-- The places of connections with distinct ids are the same in any order. -/
theorem Compiles.sourceMap_rewired {compiled : Compiled}
    (h : Compiles o catalog d compiled plans es) (distinct : (d.connections.map (·.id)).Nodup)
    (perm : d.connections.Perm cs) :
    (o.program d es).sourceMap o.indent cs = compiled.sourceMap := by
  have distinct' : (cs.map (·.id)).Nodup := (perm.map (·.id)).nodup_iff.mp distinct
  have anchors : ((o.program d es).anchorPlaces o.indent d.connections).Perm
      ((o.program d es).anchorPlaces o.indent cs) := by
    rw [Program.anchorPlaces, Program.anchorPlaces, anchorMarks_eq_filterMap distinct,
      anchorMarks_eq_filterMap distinct']
    exact perm.filterMap _
  have places := SourceMap.group_perm (h.nodup_places distinct)
    (anchors.append_left ((o.program d es).readPlaces o.indent))
  have connections : ((o.program d es).sourceMap o.indent cs).connections
      = compiled.sourceMap.connections := by
    rw [h.sourceMap_eq, Program.connections_sourceMap, Program.connections_sourceMap]
    exact places.symm
  have blocks : ((o.program d es).sourceMap o.indent cs).blocks = compiled.sourceMap.blocks := by
    rw [h.sourceMap_eq]
    rfl
  have eta (m : SourceMap) : m = ⟨m.blocks, m.connections⟩ := rfl
  rw [eta ((o.program d es).sourceMap o.indent cs), blocks, connections]

/-! ## Compilation -/

theorem judge_rewired (perm : d.connections.Perm cs) (h : o.judge d.report = .ok ()) :
    o.judge (d.rewired cs).report = .ok () := by
  obtain ⟨harmless, silent⟩ := judge_eq_ok_iff.mp h
  refine judge_eq_ok_iff.mpr ⟨Definition.hasErrors_rewired perm harmless, fun deny => ?_⟩
  have sound := Definition.isSound_of_hasErrors harmless
  have same := Definition.findings_rewired perm sound.distinct fun some =>
    Definition.connectionDefects_of_findings some (silent deny)
  exact same.trans (silent deny)

theorem isOk_compile_rewired (perm : d.connections.Perm cs)
    (h : ∃ compiled, compile o catalog d = .ok compiled) :
    ∃ compiled, compile o catalog (d.rewired cs) = .ok compiled := by
  obtain ⟨checked, judged, emitted⟩ := isOk_compile_iff.mp h
  have judged' := judge_rewired perm judged
  have sound := Definition.isSound_of_hasErrors (judge_eq_ok_iff.mp judged).1
  have sound' := Definition.isSound_of_hasErrors (judge_eq_ok_iff.mp judged').1
  refine isOk_compile_iff.mpr ⟨checked, judged', (exists_emissions_iff sound').mpr ?_⟩
  exact (exists_emissions_iff sound).mp emitted

/-- Reordering the connections of a strategy does not decide whether it compiles. It changes neither
the order of the blocks nor the keys of the parameters nor the fields of the structure. If the
connections have distinct ids and no two of them meet, it changes nothing at all. -/
theorem compile_rewired (o : Options) (catalog : Catalog) {d : Definition} {cs : List Connection}
    (perm : d.connections.Perm cs) :
    ((∃ compiled, compile o catalog d = .ok compiled)
      ↔ ∃ compiled', compile o catalog (d.rewired cs) = .ok compiled')
    ∧ ∀ compiled compiled', compile o catalog d = .ok compiled →
      compile o catalog (d.rewired cs) = .ok compiled' →
      compiled'.executionOrder = compiled.executionOrder
      ∧ compiled'.parameterKeys = compiled.parameterKeys
      ∧ structureLines (linesOf compiled'.code) = structureLines (linesOf compiled.code)
      ∧ ((d.connections.map (·.id)).Nodup →
        d.connections.Pairwise (fun c e => ¬ c.Meets d.blocks e) → compiled' = compiled) := by
  refine ⟨⟨isOk_compile_rewired perm, isOk_compile_rewired (d := d.rewired cs) perm.symm⟩, ?_⟩
  intro compiled compiled' h h'
  obtain ⟨-, harmless, es, emitted, result⟩ := compile_eq_ok h
  obtain ⟨-, harmless', es', emitted', result'⟩ := compile_eq_ok h'
  obtain ⟨plans, comp⟩ := exists_compiles_of_emissions h emitted
  obtain ⟨plans', comp'⟩ := exists_compiles_of_emissions h' emitted'
  have outlines := map_outline_rewired perm emitted emitted'
  refine ⟨?_, ?_, ?_, fun distinct apart => ?_⟩
  · have ids (es : List Emission) :
        es.map (·.blockId) = (es.map Emission.outline).map (·.blockId) := by
      rw [List.map_map]
      rfl
    rw [result, result']
    show es'.map (·.blockId) = es.map (·.blockId)
    rw [ids, ids es, outlines]
  · have keys (es : List Emission) : es.flatMap (fun e => e.plan.params.map (·.key))
        = (es.map Emission.outline).flatMap fun e => e.plan.params.map (·.key) := by
      rw [List.flatMap_map]
      rfl
    rw [result, result']
    show es'.flatMap (fun e => e.plan.params.map (·.key))
      = es.flatMap fun e => e.plan.params.map (·.key)
    rw [keys, keys es, outlines]
  · rw [comp.code_eq, comp'.code_eq,
      Program.structureLines_text fun entry mem => (comp.tidy entry mem).isOneLine,
      Program.structureLines_text fun entry mem => (comp'.tidy entry mem).isOneLine]
    show (es'.map Emission.outline).flatMap _ = (es.map Emission.outline).flatMap _
    rw [outlines]
  · rw [emissions_rewired perm comp.sound comp'.sound apart emitted] at emitted'
    obtain rfl := Except.ok.inj emitted'
    have map := comp.sourceMap_rewired distinct perm
    have acceptable := (Definition.harmless_iff.mp harmless).2
    have findings := Definition.findings_rewired perm comp.sound.distinct fun some =>
      (acceptable.resolve_left some).connectionDefects_eq_nil apart
    rw [result, result']
    show Compiled.mk _ ((o.program d es).sourceMap o.indent cs) _ _ (d.rewired cs).findings = _
    rw [map, findings, result]
    rfl

/-- A block that logs what is connected to it. -/
def logBlock (id : String) : Block where
  id := id
  type := "log"
  category := .output
  name := "Log"
  description := ""
  position := .origin
  size := .usual
  inputs := [⟨inputPortId id "Value", "Value", .any, true⟩]
  outputs := []
  properties := [
    ⟨"level", "Level", .string, some (.text "info"), true, none, none, []⟩,
    ⟨"message", "Message", .string, some (.text "seen"), true, none, none, []⟩]

/-- A strategy that logs a price and a volume. -/
def twoLogs : Definition :=
  { priceLog with
    blocks := [logBlock "a", logBlock "b"] ++ priceLog.blocks.drop 1
    connections := [
      ⟨"price", "feed", "feed:out:price", "a", "a:in:value", .number⟩,
      ⟨"volume", "feed", "feed:out:volume", "b", "b:in:value", .number⟩] }

/-- The logs of a price and of a volume compile alike in either order of their connections. -/
theorem compile_twoLogs_reversed : ∃ compiled, compile .default ⟨[]⟩ twoLogs = .ok compiled
    ∧ compile .default ⟨[]⟩ (twoLogs.rewired twoLogs.connections.reverse) = .ok compiled := by
  obtain ⟨compiled, h⟩ : ∃ compiled, compile .default ⟨[]⟩ twoLogs = .ok compiled :=
    exists_of_isSome_toOption (by decide +kernel)
  obtain ⟨both, results⟩ :=
    compile_rewired .default ⟨[]⟩ twoLogs.connections.reverse_perm.symm
  obtain ⟨compiled', h'⟩ := both.mp ⟨compiled, h⟩
  obtain ⟨-, -, -, same⟩ := results compiled compiled' h h'
  have distinct : (twoLogs.connections.map (·.id)).Nodup := by decide
  have apart : twoLogs.connections.Pairwise fun c e => ¬ c.Meets twoLogs.blocks e := by
    decide +kernel
  rw [same distinct apart] at h'
  exact ⟨compiled, h, h'⟩

end StrategyCanvas.Code
