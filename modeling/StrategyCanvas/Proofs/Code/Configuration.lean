import StrategyCanvas.Proofs.Code.Functions
import StrategyCanvas.Proofs.Code.Redaction

/-!
# What configured values change in code

Values of properties are written where the fields of their block start with them, and nowhere else.
Codes of strategies that differ in hidden values have as many lines, and each line that differs is
recorded as an initial value of a block whose values are hidden (`Compiles.exists_init_of_ne`). The
source map is the same, whatever is in a text (`Program.sourceMap_congr`), and so are the structure
and every function but the one that makes a strategy (`Compiles.functionLines_congr`).
-/

namespace StrategyCanvas.Code

open Text

variable {hide : String → Bool} {unit : Nat}

/-! ## Blocks -/

/-- A row whose initial value does not show if it is hidden. -/
def FieldRow.redacted (hidden : Bool) (r : FieldRow) : FieldRow :=
  { r with initializer := if hidden then "" else r.initializer }

namespace Emission

/-- Of the rows of a block, hidden values show in the initial values alone. -/
theorem rows_redacted (e : Emission) :
    (e.redacted hide).rows.map (·.redacted (hide e.blockId))
      = e.rows.map (·.redacted (hide e.blockId)) := by
  have id : e.plan.block.id = e.blockId := rfl
  simp only [rows, redacted, BlockPlan.redacted, List.map_append, List.map_map, Option.toList_map,
    id]
  cases hide e.blockId <;> rfl

/-- Fields are declared by name and type, whatever they start with. -/
theorem declarations_redacted (e : Emission) :
    (e.redacted hide).declarations = e.declarations := by
  have view (e : Emission) (hidden : Bool) : e.declarations
      = .ofBlock e .state (.line e.comment) :: (e.rows.map (·.redacted hidden)).map fun r =>
          .ofBlock e r.part (.line (r.name ++ ": " ++ r.type ++ ",")) := by
    rw [List.map_map]
    rfl
  rw [view, view e, rows_redacted]
  rfl

/-- An update reads the parameters, and not the values that they start with. -/
theorem updates_redacted (e : Emission) : (e.redacted hide).updates = e.updates := rfl

/-- A reset makes states from the parameters too. -/
theorem resets_redacted (e : Emission) : (e.redacted hide).resets = e.resets := by
  simp only [resets, redacted, Option.toList_map, List.map_map]
  rfl

/-- Whether a parameter has its state made anew does not depend on its value. -/
theorem rebuild?_redacted (e : Emission) : (e.redacted hide).rebuild? = e.rebuild? := by
  funext p
  simp only [rebuild?, redacted, Option.filter_map, Option.map_map]
  rfl

theorem resetLines_redacted (e : Emission) : (e.redacted hide).resetLines = e.resetLines := by
  rw [resetLines, resets_redacted]
  rfl

theorem getterArms_redacted (e : Emission) : (e.redacted hide).getterArms = e.getterArms :=
  List.map_map

/-- The cases that take parameters in are the same whatever the values are. -/
theorem setterArms_redacted (e : Emission) : (e.redacted hide).setterArms = e.setterArms := by
  have arm : (e.redacted hide).setterArm = e.setterArm := by
    funext p
    unfold setterArm
    rw [rebuild?_redacted]
    rfl
  unfold setterArms
  rw [arm]
  exact List.flatMap_map ..

theorem keyLines_redacted (e : Emission) : (e.redacted hide).keyLines = e.keyLines :=
  List.map_map

end Emission

/-! ## Entries -/

/-- Whether a mark is that of a hidden initial value. -/
def Mark.isHidden (hide : String → Bool) (m : Mark) : Bool := m.part = .init && hide m.blockId

namespace Entry

/-- Whether an entry is a hidden initial value. -/
def isHidden (hide : String → Bool) (entry : Entry) : Bool := entry.mark.any (·.isHidden hide)

/-- An entry whose text does not show if it is a hidden initial value. -/
def redacted (hide : String → Bool) (entry : Entry) : Entry :=
  { entry with
    stroke := if entry.isHidden hide then entry.stroke.map fun _ => "" else entry.stroke }

end Entry

/-- Of the initializers, hidden values show in the text alone. -/
theorem Emission.initializers_redacted (e : Emission) :
    (e.redacted hide).initializers.map (·.redacted hide)
      = e.initializers.map (·.redacted hide) := by
  have view (e : Emission) : e.initializers.map (·.redacted hide)
      = (e.rows.map (·.redacted (hide e.blockId))).map fun r =>
          if hide e.blockId then .ofBlock e .init (.line "")
          else .ofBlock e .init (.line (r.name ++ ": " ++ r.initializer ++ ",")) := by
    rw [initializers, List.map_map, List.map_map]
    refine List.map_congr_left fun r _ => ?_
    have hidden : (Entry.ofBlock e .init
        (.line (r.name ++ ": " ++ r.initializer ++ ","))).isHidden hide = hide e.blockId := rfl
    show Entry.redacted hide (.ofBlock e .init _) = _
    rw [Entry.redacted, hidden]
    cases hide e.blockId <;> rfl
  rw [view, view e]
  show ((e.redacted hide).rows.map (·.redacted (hide e.blockId))).map _ = _
  rw [rows_redacted]
  rfl

/-! ## Programs -/

namespace Program

/-- A program in which the values of some blocks do not show. -/
def redacted (hide : String → Bool) (p : Program) : Program :=
  { p with blocks := p.blocks.map (·.redacted hide) }

/-- Parts that hide no value are the same for all blocks together. -/
theorem flatMap_redacted (p : Program) {f : Emission → List Entry}
    (kept : ∀ e, f (e.redacted hide) = f e) :
    (p.redacted hide).blocks.flatMap f = p.blocks.flatMap f := by
  show (p.blocks.map (·.redacted hide)).flatMap f = _
  rw [List.flatMap_map]
  simp only [kept]

theorem declarations_redacted (p : Program) :
    (p.redacted hide).declarations = p.declarations :=
  p.flatMap_redacted Emission.declarations_redacted

theorem declaration_redacted (p : Program) : (p.redacted hide).declaration = p.declaration := by
  rw [declaration, p.flatMap_redacted Emission.declarations_redacted]
  rfl

theorem execution_redacted (p : Program) : (p.redacted hide).execution = p.execution := by
  rw [execution, p.flatMap_redacted Emission.updates_redacted]
  rfl

theorem resetting_redacted (p : Program) : (p.redacted hide).resetting = p.resetting := by
  rw [resetting, p.flatMap_redacted Emission.resetLines_redacted]
  rfl

theorem getter_redacted (p : Program) : (p.redacted hide).getter = p.getter := by
  rw [getter, p.flatMap_redacted Emission.getterArms_redacted]
  rfl

theorem setter_redacted (p : Program) : (p.redacted hide).setter = p.setter := by
  rw [setter, p.flatMap_redacted Emission.setterArms_redacted]
  rfl

theorem keyList_redacted (p : Program) : (p.redacted hide).keyList = p.keyList := by
  rw [keyList, p.flatMap_redacted Emission.keyLines_redacted]
  rfl

/-- The function that makes a new strategy has the same lines, apart from initial values. -/
theorem construction_redacted (p : Program) :
    (p.redacted hide).construction.map (·.redacted hide)
      = p.construction.map (·.redacted hide) := by
  have initializers := p.flatMap_redacted (f := fun e => e.initializers.map (·.redacted hide))
    Emission.initializers_redacted
  simp only [construction, List.map_append, List.map_flatMap, initializers]

/-- The functions behind the first one, which makes a strategy. -/
theorem tail_functions_redacted (p : Program) :
    (p.redacted hide).functions.tail = p.functions.tail := by
  unfold functions
  rw [execution_redacted, resetting_redacted, getter_redacted, setter_redacted, keyList_redacted]
  rfl

/-- Only initial values are made from values. -/
theorem entries_redacted (p : Program) :
    (p.redacted hide).entries.map (·.redacted hide) = p.entries.map (·.redacted hide) := by
  unfold entries
  rw [declaration_redacted, execution_redacted, resetting_redacted, getter_redacted,
    setter_redacted, keyList_redacted]
  simp only [List.map_append, construction_redacted]
  rfl

end Program

/-! ## Lines -/

/-- A line whose text does not show if it is hidden. -/
def LaidLine.redacted (hidden : Bool) (l : LaidLine) : LaidLine :=
  { l with text := if hidden then "" else l.text }

/-- What does not show of an entry does not show of its line, and lines stay where they are. -/
theorem zip_lay_redacted (depth written : Nat) (entries : List Entry) :
    (entries.map (·.redacted hide)).zip
        (lay unit depth written ((entries.map (·.redacted hide)).map (·.stroke)))
      = (entries.zip (lay unit depth written (entries.map (·.stroke)))).map
          fun (entry, l) => (entry.redacted hide, l.redacted (entry.isHidden hide)) := by
  induction entries generalizing depth written with
  | nil => rfl
  | cons entry rest ih =>
    have kept : (entry.redacted hide).stroke.level depth = entry.stroke.level depth
        ∧ (entry.redacted hide).stroke.depthAfter depth = entry.stroke.depthAfter depth
        ∧ (entry.redacted hide).stroke.text?.getD ""
          = if entry.isHidden hide then "" else entry.stroke.text?.getD "" := by
      unfold Entry.redacted
      cases entry.isHidden hide with
      | false => exact ⟨rfl, rfl, rfl⟩
      | true => cases text : entry.stroke.text? <;> simp [text]
    obtain ⟨level, depthAfter, text⟩ := kept
    simp only [List.map_cons, lay, List.zip_cons_cons, level, depthAfter, text, ih]
    rfl

namespace Program

/-- The lines of a program with the entries that they come from, as far as they show. -/
def shownLines (hide : String → Bool) (p : Program) (unit : Nat) : List (Entry × LaidLine) :=
  (p.entries.zip (p.lines unit)).map fun (entry, l) =>
    (entry.redacted hide, l.redacted (entry.isHidden hide))

/-- What shows of the lines of a program does not depend on hidden values. -/
theorem shownLines_redacted (p : Program) :
    (p.redacted hide).shownLines hide unit = p.shownLines hide unit := by
  unfold shownLines lines
  rw [← zip_lay_redacted, ← zip_lay_redacted, entries_redacted]

/-- The lines of blocks as far as they show, with their marks. -/
theorem filterMap_mark_shownLines (p : Program) :
    (p.shownLines hide unit).filterMap (fun (entry, l) => entry.mark.map (·, l))
      = (p.markedLines unit).map fun (m, l) => (m, l.redacted (m.isHidden hide)) := by
  rw [shownLines, markedLines, List.filterMap_map, List.map_filterMap]
  refine List.filterMap_congr ?_
  rintro ⟨entry, l⟩ -
  show entry.mark.map _ = (entry.mark.map _).map _
  rw [Option.map_map]
  unfold Entry.isHidden
  cases entry.mark <;> rfl

variable {p p' : Program} {k : Nat}

/-- Every line comes from the entry at its place. -/
theorem exists_getElem?_zip (p : Program) (bound : k < (p.lines unit).length) :
    ∃ entry l, (p.entries.zip (p.lines unit))[k]? = some (entry, l)
      ∧ (p.lines unit)[k]? = some l := by
  have known : k < p.entries.length := by simpa [lines] using bound
  refine ⟨p.entries[k], (p.lines unit)[k], ?_, List.getElem?_eq_getElem bound⟩
  rw [List.getElem?_zip_eq_some]
  exact ⟨List.getElem?_eq_getElem known, List.getElem?_eq_getElem bound⟩

section

variable (same : p'.redacted hide = p.redacted hide)

include same

/-- Programs that differ in hidden values show the same lines. -/
theorem shownLines_congr (unit : Nat) : p'.shownLines hide unit = p.shownLines hide unit := by
  rw [← p'.shownLines_redacted, same, shownLines_redacted]

/-- Programs that differ in hidden values have equally many lines. -/
theorem length_lines_congr (unit : Nat) : (p'.lines unit).length = (p.lines unit).length := by
  have length (p : Program) : (p.shownLines hide unit).length = (p.lines unit).length := by
    simp [shownLines, lines]
  rw [← length, shownLines_congr same unit, length]

/-- A line that differs is a hidden initial value. -/
theorem exists_marked_of_ne (differ : (p'.lines unit)[k]? ≠ (p.lines unit)[k]?) :
    ∃ m l, (m, l) ∈ p.markedLines unit ∧ m.isHidden hide = true ∧ l.number = k + 1 := by
  have bound : k < (p.lines unit).length := by
    by_contra behind
    have length := length_lines_congr same unit
    rw [List.getElem?_eq_none (by omega), List.getElem?_eq_none (by omega)] at differ
    exact differ rfl
  obtain ⟨entry, l, zipped, here⟩ := p.exists_getElem?_zip bound
  obtain ⟨entry', l', zipped', here'⟩ :=
    p'.exists_getElem?_zip (bound.trans_eq (length_lines_congr same unit).symm)
  -- both places show the same
  have shown := congrArg (·[k]?) (shownLines_congr same unit)
  simp only [shownLines, List.getElem?_map, zipped, zipped', Option.map_some, Option.some.injEq,
    Prod.mk.injEq] at shown
  obtain ⟨entries, lines⟩ := shown
  have hidden : entry'.isHidden hide = entry.isHidden hide :=
    (congrArg (Entry.isHidden hide) entries :)
  cases visible : entry.isHidden hide with
  | false =>
    rw [hidden, visible] at lines
    rw [here, here'] at differ
    exact absurd (congrArg some lines) differ
  | true =>
    obtain ⟨m, mark, hides⟩ := (Option.any_eq_true ..).mp visible
    refine ⟨m, l, List.mem_filterMap.mpr ⟨(entry, l), List.mem_of_getElem? zipped, ?_⟩, hides,
      number_of_getElem?_lay here⟩
    show entry.mark.map (·, l) = some (m, l)
    rw [mark]
    rfl

end

end Program

/-! ## The source map -/

section

variable {marked marked' : List (Mark × LaidLine)}

/-- The marks do not depend on the texts of lines. -/
theorem blockMarks_redacted (marked : List (Mark × LaidLine)) :
    blockMarks (marked.map fun (m, l) => (m, l.redacted (m.isHidden hide))) = blockMarks marked :=
  List.map_map

/-- Statements belong to updates, so that they show. -/
theorem statementLines_redacted {ids : List String} (tidy : ∀ x ∈ marked, x.1.IsTidy ids)
    (id : String) :
    statementLines (marked.map fun (m, l) => (m, l.redacted (m.isHidden hide))) id
      = statementLines marked id := by
  unfold statementLines
  rw [List.filter_map, List.map_map]
  refine List.map_congr_left ?_
  rintro ⟨m, l⟩ mem
  obtain ⟨listed, statement⟩ := List.mem_filter.mp mem
  have update := (tidy _ listed).statement (Bool.and_eq_true_iff.mp statement).1
  have shown : m.isHidden hide = false := by
    have part : m.part = .update := update
    simp [Mark.isHidden, part]
  show l.redacted (m.isHidden hide) = l
  rw [shown]
  rfl

/-- Where a block reads its wires does not depend on lines that do not show. -/
theorem readMarks_congr {ids : List String} (tidy : ∀ x ∈ marked, x.1.IsTidy ids)
    (tidy' : ∀ x ∈ marked', x.1.IsTidy ids)
    (same : (marked'.map fun (m, l) => (m, l.redacted (m.isHidden hide)))
      = marked.map fun (m, l) => (m, l.redacted (m.isHidden hide))) :
    readMarks marked' = readMarks marked := by
  funext e
  unfold readMarks
  rw [← statementLines_redacted tidy', same, statementLines_redacted tidy]

end

/-- Programs that differ in hidden values have the same source map. -/
theorem Program.sourceMap_congr {p p' : Program} {ids : List String}
    (tidy : ∀ x ∈ p.markedLines unit, x.1.IsTidy ids)
    (tidy' : ∀ x ∈ p'.markedLines unit, x.1.IsTidy ids)
    (same : p'.redacted hide = p.redacted hide) (connections : List Connection) :
    p'.sourceMap unit connections = p.sourceMap unit connections := by
  have marked : ((p'.markedLines unit).map fun (m, l) => (m, l.redacted (m.isHidden hide)))
      = (p.markedLines unit).map fun (m, l) => (m, l.redacted (m.isHidden hide)) := by
    rw [← filterMap_mark_shownLines, shownLines_congr same unit, filterMap_mark_shownLines]
  have blocks : blockMarks (p'.markedLines unit) = blockMarks (p.markedLines unit) := by
    rw [← blockMarks_redacted, marked, blockMarks_redacted]
  have reads : p'.blocks.flatMap (readMarks (p'.markedLines unit))
      = p.blocks.flatMap (readMarks (p.markedLines unit)) := by
    have view (p : Program) (marked : List (Mark × LaidLine)) :
        (p.redacted hide).blocks.flatMap (readMarks marked) = p.blocks.flatMap (readMarks marked) :=
      List.flatMap_map ..
    rw [readMarks_congr tidy tidy' marked, ← view, same, view]
  unfold sourceMap
  dsimp only
  rw [blocks, reads]

/-! ## Compiled strategies -/

section

variable {o : Options} {catalog : Catalog} {d d' : Definition} {compiled compiled' : Compiled}
  {plans plans' : List BlockPlan} {es es' : List Emission}

/-- Strategies that differ in hidden values compile to programs that do. -/
theorem exists_compiles_congr (same : d'.redacted hide = d.redacted hide)
    (h : compile o catalog d = .ok compiled) (h' : compile o catalog d' = .ok compiled') :
    ∃ plans es plans' es', Compiles o catalog d compiled plans es
      ∧ Compiles o catalog d' compiled' plans' es'
      ∧ (o.program d' es').redacted hide = (o.program d es).redacted hide := by
  obtain ⟨-, -, es, emitted, -⟩ := compile_eq_ok h
  obtain ⟨-, -, es', emitted', -⟩ := compile_eq_ok h'
  obtain ⟨plans, comp⟩ := exists_compiles_of_emissions h emitted
  obtain ⟨plans', comp'⟩ := exists_compiles_of_emissions h' emitted'
  refine ⟨plans, es, plans', es', comp, comp', ?_⟩
  have views := map_redacted_emissions same catalog
  rw [emitted, emitted'] at views
  have name : d'.name = d.name := (congrArg Definition.name same :)
  have id : d'.id = d.id := (congrArg Definition.id same :)
  have version : d'.version = d.version := (congrArg Definition.version same :)
  have blocks : es'.map (·.redacted hide) = es.map (·.redacted hide) := Except.ok.inj views
  unfold Options.program Program.redacted
  dsimp only
  rw [name, id, version, blocks]

namespace Compiles

variable (h : Compiles o catalog d compiled plans es)
  (h' : Compiles o catalog d' compiled' plans' es')
  (same : (o.program d' es').redacted hide = (o.program d es).redacted hide)

include h h' same

/-- The two codes have equally many lines. -/
theorem length_linesOf_congr :
    (linesOf compiled'.code).length = (linesOf compiled.code).length := by
  have length := Program.length_lines_congr same o.indent
  simp [h.linesOf_code, h'.linesOf_code, length]

/-- A line that differs is recorded as an initial value of a block whose values are hidden. -/
theorem exists_init_of_ne {k : Nat}
    (differ : (linesOf compiled'.code)[k]? ≠ (linesOf compiled.code)[k]?) :
    ∃ id, hide id = true
      ∧ ∃ l ∈ compiled.sourceMap.blockLocations id, l.part = .init ∧ l.line = k + 1 := by
  have length := Program.length_lines_congr same o.indent
  have lines : ((o.program d' es').lines o.indent)[k]? ≠ ((o.program d es).lines o.indent)[k]? := by
    intro equal
    rw [h.linesOf_code, h'.linesOf_code, List.getElem?_append, List.getElem?_append,
      List.length_map, List.length_map, length, List.getElem?_map, List.getElem?_map,
      equal] at differ
    exact differ rfl
  obtain ⟨m, l, marked, hidden, number⟩ := Program.exists_marked_of_ne same lines
  obtain ⟨part, hides⟩ := Bool.and_eq_true_iff.mp hidden
  refine ⟨m.blockId, hides, m.location l, ?_, of_decide_eq_true part, number⟩
  rw [h.sourceMap_eq]
  exact Program.mem_blockLocations_iff.mpr ⟨m, l, marked, rfl, rfl⟩

/-- The structure is the same. -/
theorem structureLines_congr :
    structureLines (linesOf compiled'.code) = structureLines (linesOf compiled.code) := by
  have declarations : (o.program d' es').declarations = (o.program d es).declarations := by
    rw [← Program.declarations_redacted, same, Program.declarations_redacted]
  rw [h.code_eq, h'.code_eq,
    Program.structureLines_linesOf_text fun entry mem => (h.tidy entry mem).isOneLine,
    Program.structureLines_linesOf_text fun entry mem => (h'.tidy entry mem).isOneLine,
    declarations]

/-- Every function but the one that makes a strategy is the same. -/
theorem functionLines_congr : ∀ name ∈
    ["execute", "reset", "get_parameter", "set_parameter", "parameter_keys"],
    functionLines name compiled'.code = functionLines name compiled.code := by
  intro name mem
  obtain ⟨other, f, found⟩ : name ≠ "new"
      ∧ ∃ f, (o.program d es).functions.find? (·.name = name) = some f := by
    simp only [List.mem_cons, List.not_mem_nil, or_false] at mem
    rcases mem with rfl | rfl | rfl | rfl | rfl <;> exact ⟨by decide, _, rfl⟩
  have functions : (o.program d' es').functions.tail = (o.program d es).functions.tail := by
    rw [← Program.tail_functions_redacted, same, Program.tail_functions_redacted]
  have behind (p : Program) :
      p.functions.find? (·.name = name) = p.functions.tail.find? (·.name = name) :=
    List.find?_cons_of_neg (by simpa using other.symm)
  have found' : (o.program d' es').functions.find? (·.name = name) = some f := by
    rw [behind, functions, ← behind, found]
  rw [h.functionLines_eq found, h'.functionLines_eq found']

end Compiles

/-- Everything but the code is the same. -/
theorem eq_of_compile_redacted (same : d'.redacted hide = d.redacted hide)
    (h : compile o catalog d = .ok compiled) (h' : compile o catalog d' = .ok compiled') :
    compiled' = { compiled with code := compiled'.code } := by
  obtain ⟨plans, es, plans', es', comp, comp', programs⟩ := exists_compiles_congr same h h'
  have blocks : es'.map (·.redacted hide) = es.map (·.redacted hide) :=
    congrArg Program.blocks programs
  have ids : es'.map (·.blockId) = es.map (·.blockId) := by
    have views := congrArg (List.map (·.blockId)) blocks
    rwa [List.map_map, List.map_map] at views
  have keys : (es'.flatMap fun e => e.plan.params.map (·.key))
      = es.flatMap fun e => e.plan.params.map (·.key) := by
    have own (e : Emission) : (e.redacted hide).plan.params.map (·.key)
        = e.plan.params.map (·.key) := List.map_map
    have views := congrArg (List.flatMap fun e => e.plan.params.map (·.key)) blocks
    simpa only [List.flatMap_map, own] using views
  have map : compiled'.sourceMap = compiled.sourceMap := by
    have tidy : ∀ x ∈ (o.program d es).markedLines o.indent, x.1.IsTidy (es.map (·.blockId)) :=
      fun x mem => (Program.isTidy_of_mem_markedLines comp.tidy mem).1
    have tidy' : ∀ x ∈ (o.program d' es').markedLines o.indent,
        x.1.IsTidy (es.map (·.blockId)) := by
      rw [← ids]
      exact fun x mem => (Program.isTidy_of_mem_markedLines comp'.tidy mem).1
    rw [comp.sourceMap_eq, comp'.sourceMap_eq, Program.sourceMap_congr tidy tidy' programs]
    exact congrArg (fun d => Program.sourceMap _ _ d.connections) same
  have warnings : d'.report.issues = d.report.issues := by
    obtain ⟨-, harmless, -⟩ := compile_eq_ok h
    obtain ⟨-, harmless', -⟩ := compile_eq_ok h'
    rw [← Definition.warnings_eq_issues harmless, ← Definition.warnings_eq_issues harmless',
      Definition.warnings_congr same]
  rw [comp'.result] at map ⊢
  rw [comp.result] at map ⊢
  unfold Options.finish at map ⊢
  dsimp only at map ⊢
  rw [map, ids, keys, warnings]

/-- Setting a property changes no lines but those that are recorded as initial values of its block,
and it neither adds lines nor moves any, whatever is in a text. The structure and the functions that
run, reset and parametrise a strategy do not depend on configured values at all. -/
theorem compile_updateProperty (o : Options) (catalog stock : Catalog) {blockId property : String}
    {value : PropertyValue} (h : compile o catalog d = .ok compiled)
    (edited : d.apply stock (.updateProperty blockId property value) = .ok d')
    (h' : compile o catalog d' = .ok compiled') :
    compiled'.sourceMap = compiled.sourceMap
    ∧ compiled'.executionOrder = compiled.executionOrder
    ∧ compiled'.parameterKeys = compiled.parameterKeys
    ∧ compiled'.warnings = compiled.warnings
    ∧ (linesOf compiled'.code).length = (linesOf compiled.code).length
    ∧ (∀ k, (linesOf compiled'.code)[k]? ≠ (linesOf compiled.code)[k]? →
        ∃ l ∈ compiled.sourceMap.blockLocations blockId, l.part = .init ∧ l.line = k + 1)
    ∧ ∀ other compiledOther, other.redacted (fun _ => true) = d.redacted (fun _ => true) →
        compile o catalog other = .ok compiledOther →
        structureLines (linesOf compiledOther.code) = structureLines (linesOf compiled.code)
        ∧ ∀ name ∈ ["execute", "reset", "get_parameter", "set_parameter", "parameter_keys"],
          functionLines name compiledOther.code = functionLines name compiled.code := by
  have same : d'.redacted (fun id => decide (id = blockId))
      = d.redacted fun id => decide (id = blockId) :=
    Definition.redacted_updateProperty edited (decide_eq_true rfl)
  obtain ⟨_, _, _, _, comp, comp', programs⟩ := exists_compiles_congr same h h'
  have rest := eq_of_compile_redacted same h h'
  refine ⟨by rw [rest], by rw [rest], by rw [rest], by rw [rest],
    comp.length_linesOf_congr comp' programs, fun k differ => ?_,
    fun other compiledOther same h' => ?_⟩
  · obtain ⟨id, own, place⟩ := comp.exists_init_of_ne comp' programs differ
    rwa [← of_decide_eq_true own]
  · obtain ⟨_, _, _, _, comp, comp', programs⟩ := exists_compiles_congr same h h'
    exact ⟨comp.structureLines_congr comp' programs, comp.functionLines_congr comp' programs⟩

end

/-- The text of code, with line feeds and quotes. -/
def noise : String := "\".to_string(),\n\x7d\npub fn execute(\\"

/-- A strategy that logs a price with noise for its message. -/
def noisyLog : Definition :=
  priceLog.mapBlock "log\n" fun b =>
    { b with properties := [
      ⟨"level", "Level", .string, some (.text "info\n"), true, none, none, []⟩,
      ⟨"message", "Message", .string, some (.text noise), true, none, none, []⟩] }

/-- A message with quotes, braces and line feeds in it changes the line that initializes it, and no
other. -/
theorem compile_noisyLog : ∃ compiled compiled',
    compile .default ⟨[]⟩ priceLog = .ok compiled
    ∧ priceLog.apply ⟨[]⟩ (.updateProperty "log\n" "message" (.text noise)) = .ok noisyLog
    ∧ compile .default ⟨[]⟩ noisyLog = .ok compiled'
    ∧ compiled'.sourceMap = compiled.sourceMap
    ∧ (linesOf compiled'.code).length = (linesOf compiled.code).length
    ∧ ∀ k, (linesOf compiled'.code)[k]? ≠ (linesOf compiled.code)[k]? →
        ∃ l ∈ compiled.sourceMap.blockLocations "log\n", l.part = .init ∧ l.line = k + 1 := by
  obtain ⟨compiled, h⟩ := isOk_compile_priceLog
  obtain ⟨compiled', h'⟩ : ∃ compiled', compile .default ⟨[]⟩ noisyLog = .ok compiled' :=
    exists_of_isSome_toOption (by decide +kernel)
  have edited : priceLog.apply ⟨[]⟩ (.updateProperty "log\n" "message" (.text noise))
      = .ok noisyLog := rfl
  obtain ⟨map, -, -, -, length, lines, -⟩ := compile_updateProperty .default ⟨[]⟩ ⟨[]⟩ h edited h'
  exact ⟨compiled, compiled', h, edited, h', map, length, lines⟩

end StrategyCanvas.Code
