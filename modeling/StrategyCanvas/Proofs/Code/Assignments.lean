import StrategyCanvas.Proofs.Code.Functions
import StrategyCanvas.Proofs.Text.Assignment

/-!
# What the functions assign

The construction sets every field that is declared, once and in order. The reset assigns the state
and the outputs of every block, each once, and the run of the blocks assigns nothing else than these
(`assignedIn_of_compile`), so that a parameter keeps its value until it is set. In the lines of a
rule the value of a property always stands in front of something that is no assignment operator
(`Rule.isGuarded_ofType`).
-/

namespace StrategyCanvas.Code

open Text

variable {fields : List String}

/-- The fields that a function in a text of code assigns, in order. -/
def assignedIn (name code : String) : List String :=
  assignedFields ((functionLines name code).flatMap fun line => line ++ ['\n'])

/-- The fields of a block that change while the code runs: the state and the outputs. -/
def Emission.runningFields (e : Emission) : List String :=
  e.state.toList.map (·.field) ++ e.plan.outputs.map (·.field)

theorem Emission.map_field_resets (e : Emission) : e.resets.map (·.field) = e.runningFields := by
  simp [resets, runningFields, Function.comp_def]

/-- The fields of a block are those of its parameters and those that run. -/
theorem Emission.map_name_rows (e : Emission) :
    e.rows.map (·.name) = e.plan.params.map (·.field) ++ e.runningFields := by
  simp [rows, runningFields, Function.comp_def]

/-! ## Rules -/

/-- A piece that may be the path of a parameter, which must not be assigned. -/
def Piece.isGuarded : Piece → Bool
  | .property _ | .inputOr .. => true
  | _ => false

/-- The same for the pieces of the code that makes a state. -/
def StatePiece.isGuarded : StatePiece → Bool
  | .property _ => true
  | .text _ => false

/-- Behind the value of a property stands something else than an assignment operator, in the update
and in the code that makes the state. This code does not begin like an operator either. -/
def Rule.isGuarded (r : Rule) : Bool :=
  r.state.all (fun s => areGuarded (s.make.map fun x => (x.isGuarded, x.fixed?))
      && s.make.head?.any (·.fixed?.any beginsQuiet))
    && r.update.all fun s => s.text?.all fun pieces =>
      areGuarded (pieces.map fun x => (x.isGuarded, x.fixed?))

/-- All rules keep the values of properties away from assignment operators. -/
theorem Rule.isGuarded_ofType (type : BlockType) : (ofType type).isGuarded = true := by
  cases type <;> decide +kernel

/-! ## Values -/

/-- A closed text assigns to known fields only. -/
theorem confined_of_isClosed {s : String} (h : IsClosed fields s) :
    Confined fields (words (visible .code s.toList)) := confined_of_resolves h.resolves

/-- The value of a parameter assigns nothing if no operator follows. -/
theorem Param.restrained_read {p : Param} {letter : Char} (h : IsFieldName letter p.field) :
    Restrained fields (words (visible .code p.read.toList)) := by
  have plain := isPlain_path h.isWord
  have other : p.field.toList ≠ selfWord := fun same => h.ne_self (String.toList_inj.mp same)
  unfold read
  split
  · have front : ("&self." ++ p.field).toList = ['&'] ++ ("self." ++ p.field).toList := by simp
    rw [front, visible_append (by decide), visible_of_isPlain plain,
      words_append (.inl (by decide)), words_path h.isWord h.ne_empty]
    exact restrained_path (by decide) other
  · rw [visible_of_isPlain plain, words_path h.isWord h.ne_empty]
    have path : Restrained fields ([] ++ [selfWord, ['.'], p.field.toList]) :=
      restrained_path List.not_mem_nil other
    exact path

/-- What an output starts with begins with a word that assigns nothing. -/
theorem exists_words_defaultValue (kind : DataKind) : ∃ word rest,
    words (visible .code (defaultValue kind).toList) = word :: rest ∧ isQuiet word = true := by
  cases kind <;> exact ⟨_, _, rfl, by decide⟩

/-! ## Blocks -/

namespace BlockView

variable {v : BlockView} {r : Rule}

/-- A property that is read is not assigned. -/
theorem restrained_readProperty (h : v.IsTidy) (name : String) :
    Restrained fields (words (visible .code (v.readProperty name).toList)) := by
  unfold readProperty
  cases found : v.param? name with
  | none => exact confined_nil.restrained
  | some p =>
    obtain ⟨_, field⟩ := h.named.exists_param (List.mem_of_find?_eq_some found)
    exact Param.restrained_read field

/-- The outputs and the state of a block, and what its wires read, are among given fields. -/
structure RunsOn (v : BlockView) (r : Rule) (fields : List String) : Prop where
  outputs : ∀ o ∈ v.plan.outputs, IsClosed fields ("self." ++ o.field)
  state : r.state.isSome = true → IsClosed fields ("self." ++ v.stateName)
  wires : ∀ w ∈ v.wires, IsClosed fields w.expr

/-- What is no parameter is among the given fields. -/
theorem RunsOn.isClosed_render (h : v.RunsOn r fields) {piece : Piece} (given : piece.fixed? = none)
    (free : piece.isGuarded = false) (state : piece = .state → r.state.isSome = true)
    (read : ∀ m ∈ piece.members, v.has m = true) : IsClosed fields (v.render piece) := by
  cases piece with
  | text | property | inputOr => contradiction
  | input name => exact readInput_elim name h.wires isClosed_fallback isClosed_empty
  | output name =>
    obtain ⟨o, found⟩ := Option.isSome_iff_exists.mp (read (.output name) List.mem_cons_self)
    rw [render, found]
    exact h.outputs o (List.mem_of_find?_eq_some found)
  | state => exact h.state (state rfl)
  | blockId => exact isClosed_quote _

/-- What may be the path of a parameter is not assigned if no operator follows. -/
theorem RunsOn.restrained_render (h : v.RunsOn r fields) (tidy : v.IsTidy) {piece : Piece}
    (held : piece.isGuarded = true) :
    Restrained fields (words (visible .code (v.render piece).toList)) := by
  cases piece with
  | property name => exact restrained_readProperty tidy name
  | inputOr name other =>
    exact readInput_elim (P := fun s => Restrained fields (words (visible .code s.toList))) name
      (fun w mem => (confined_of_isClosed (h.wires w mem)).restrained)
      (fun _ => restrained_readProperty tidy other) confined_nil.restrained
  | text | input | output | state | blockId => contradiction

/-- A line of an update assigns the given fields only. -/
theorem RunsOn.confined_line {all : List String} (h : v.RunsOn r fields) (known : v.IsKnown r all)
    (spaced : r.isSpaced = true) (guards : r.isGuarded = true) {s : Stroke (List Piece)}
    {pieces : List Piece} (mem : s ∈ r.update) (text : s.text? = some pieces) :
    Confined fields (words (visible .code (v.line pieces).toList)) := by
  obtain ⟨apart, given⟩ := isClosed_given known spaced mem text
  have checked := List.all_eq_true.mp (Bool.and_eq_true_iff.mp spaced).2 s mem
  rw [text, Option.all_some, Bool.and_eq_true, Bool.or_eq_true] at checked
  have guarded := List.all_eq_true.mp (Bool.and_eq_true_iff.mp guards).2 s mem
  rw [text, Option.all_some] at guarded
  rw [line, words_join apart v.render_of_fixed? (forall_isClosed apart v.render_of_fixed? given)]
  refine confined_pieces guarded apart v.render_of_fixed? (fun piece here free => ?_)
    fun piece _ held => h.restrained_render known.tidy held
  refine confined_of_isClosed ?_
  cases fixed : piece.fixed? with
  | some cs =>
    rw [v.render_of_fixed? piece cs fixed]
    exact isClosed_of_isFixed (isFixed_of_isSpaced apart here fixed)
  | none =>
    refine h.isClosed_render fixed free (fun same => ?_) fun m read =>
      known.complete m (Rule.reads_of_mem mem text here read)
    refine checked.2.resolve_right fun absent => ?_
    simp [← same, here] at absent

/-- The code that makes a state assigns nothing and does not begin like an operator. -/
theorem confined_renderState {all : List String} (known : v.IsKnown r all) {make : List StatePiece}
    (spaced : Text.isSpaced (make.map (·.fixed?)) = true)
    (guards : areGuarded (make.map fun x => (x.isGuarded, x.fixed?)) = true)
    (begins : make.head?.any (·.fixed?.any beginsQuiet) = true) :
    Confined [] (words (visible .code (renderState v.readProperty make).toList))
      ∧ ∃ word rest, words (visible .code (renderState v.readProperty make).toList) = word :: rest
        ∧ isQuiet word = true := by
  have texts := renderStatePiece_of_fixed? v.readProperty
  have closed := forall_isClosed spaced texts fun piece _ given =>
    isClosed_renderStatePiece (isClosed_readProperty known) piece given
  rw [renderState_eq, words_join spaced texts closed]
  constructor
  · refine confined_pieces guards spaced texts (fun piece here free => ?_) fun piece _ held => ?_
    · cases piece with
      | text s =>
        refine confined_of_isClosed ?_
        rw [texts (.text s) _ rfl]
        exact isClosed_of_isFixed (isFixed_of_isSpaced spaced here rfl)
      | property name => contradiction
    · cases piece with
      | text => contradiction
      | property name => exact restrained_readProperty known.tidy name
  · cases make with
    | nil => contradiction
    | cons piece rest =>
      have first : piece.fixed?.any beginsQuiet = true := begins
      obtain ⟨cs, fixed, quiet⟩ := (Option.any_eq_true ..).mp first
      obtain ⟨word, others, read, calm⟩ := exists_words_of_beginsQuiet
        (isFixed_of_isSpaced spaced List.mem_cons_self fixed) quiet
      rw [← texts piece cs fixed] at read
      exact ⟨word, _, by rw [List.flatMap_cons, read]; rfl, calm⟩

end BlockView

/-! ## Emissions -/

/-- What is emitted for a block assigns the given fields only: in the update, and in a reset no
others than it is meant to, as the values assign nothing. -/
structure Emission.IsConfined (e : Emission) (fields : List String) : Prop where
  update : ∀ s ∈ e.update, Confined fields (words (visible .code s.text.toList))
  reset : ∀ a ∈ e.resets, Confined [] (words (visible .code a.value.toList))
    ∧ ∃ word rest, words (visible .code a.value.toList) = word :: rest ∧ isQuiet word = true

/-- Whatever is emitted for a block assigns to its running fields only. -/
theorem BlockView.RunsOn.isConfined_emission {v : BlockView} {r : Rule} {all : List String}
    (h : v.RunsOn r fields) (known : v.IsKnown r all) (spaced : r.isSpaced = true)
    (guards : r.isGuarded = true) : (v.emission r).IsConfined fields := by
  refine ⟨fun s mem => ?_, ?_⟩
  · have text := List.mem_map_of_mem (f := Statement.text) mem
    rw [map_text_update] at text
    obtain ⟨stroke, listed, same⟩ := List.mem_map.mp text
    rw [← same]
    cases pieces : stroke.text? with
    | none => exact confined_nil
    | some pieces => exact h.confined_line known spaced guards listed pieces
  · simp only [Emission.resets, List.forall_mem_append, List.forall_mem_map, Option.mem_toList]
    refine ⟨fun s mem => ?_, fun o _ => ?_⟩
    · obtain ⟨rule, given, rfl⟩ := Option.map_eq_some_iff.mp mem
      have checked := (Bool.and_eq_true_iff.mp spaced).1
      have guarded := (Bool.and_eq_true_iff.mp guards).1
      rw [given, Option.all_some, Bool.and_eq_true] at checked guarded
      exact confined_renderState known checked.2 guarded.1 guarded.2
    · exact ⟨confined_of_isClosed (isClosed_defaultValue o.kind), exists_words_defaultValue o.kind⟩

namespace Emission

variable {e : Emission}

/-- The words of an assignment, up to its semicolon. -/
theorem words_assigning {f : String} {letter : Char} (name : IsFieldName letter f)
    (value : String) : words (visible .code ("self." ++ f ++ " = " ++ value).toList)
      = [selfWord, ['.'], f.toList, ['=']] ++ words (visible .code value.toList) := by
  have chars : ("self." ++ f ++ " = " ++ value).toList
      = ("self." ++ f).toList ++ ([' ', '=', ' '] ++ value.toList) := by
    simp
  have operator : words [' ', '=', ' '] = [['=']] := by decide
  rw [chars, visible_append (isPlain_path name.isWord), visible_append (by decide),
    words_append (.inr rfl), words_append (.inl rfl), words_path name.isWord name.ne_empty,
    operator, ← List.append_assoc]
  rfl

/-- The words of an assignment are a path, a sign and what is assigned. -/
theorem words_assignment {a : Assignment} {letter : Char} (name : IsFieldName letter a.field)
    (value : Text.IsClosed fields a.value) :
    words (visible .code a.text.toList) = [selfWord, ['.'], a.field.toList, ['=']]
      ++ words (visible .code a.value.toList) ++ [[';']] := by
  have text : a.text = "self." ++ a.field ++ " = " ++ (a.value ++ ";") := String.append_assoc
  rw [text, words_assigning name, String.toList_append, value.settled, words_append (.inr rfl),
    ← List.append_assoc]
  rfl

/-- A reset assigns to fields that have the names of fields. -/
theorem IsTidy.exists_letter_reset (h : e.IsTidy) {a : Assignment} (mem : a ∈ e.resets) :
    ∃ letter, IsFieldName letter a.field := by
  have field : a.field ∈ e.rows.map (·.name) := by
    rw [map_name_rows, ← map_field_resets]
    exact List.mem_append_right _ (List.mem_map_of_mem mem)
  obtain ⟨r, row, same⟩ := List.mem_map.mp field
  rw [← same]
  exact (h.rows r row).1

/-- A reset assigns one field in each line. -/
theorem IsConfined.assigned_resetLine (h : e.IsConfined fields) {all : List String}
    (closed : e.IsClosed all) {a : Assignment} (mem : a ∈ e.resets) (more : List (List Char)) :
    assigned (lineWords a.text.toList ++ more) = a.field :: assigned more := by
  obtain ⟨confined, word, rest, value, quiet⟩ := h.reset a mem
  obtain ⟨_, name⟩ := closed.tidy.exists_letter_reset mem
  rw [(closed.resets a mem).lineWords_eq, words_assignment name (closed.reset_value a mem), value,
    List.append_assoc, assigned_path (fun same => name.ne_self (String.toList_inj.mp same)) quiet
    (value ▸ confined), String.ofList_toList]
  exact congrArg _ (assigned_cons_of_ne (by decide) _)

/-- The run of a block assigns the given fields only. -/
theorem IsConfined.updates (h : e.IsConfined fields) {all : List String} (closed : e.IsClosed all) :
    ∀ entry ∈ e.updates, Confined fields (lineWords entry.text.toList) := by
  rw [Emission.updates, List.forall_mem_cons, List.forall_mem_cons, List.forall_mem_map]
  refine ⟨confined_nil, ?_, fun s mem => ?_⟩
  · have text : (Entry.ofBlock e .update (.line e.comment)).text = e.comment := rfl
    rw [text, lineWords_comment closed.tidy.comment.isOneLine (by simp [comment])]
    exact confined_nil
  · have text : (Entry.ofStatement e s).text = s.text := rfl
    rw [text, (closed.update s mem).lineWords_eq]
    exact h.update s mem

end Emission

/-! ## Compiled strategies -/

section

variable {o : Options} {catalog : Catalog} {d : Definition} {compiled : Compiled}
  {plans : List BlockPlan} {es : List Emission}

/-- Blocks assign the states and outputs of blocks only. -/
theorem Compiles.isConfined (h : Compiles o catalog d compiled plans es) :
    ∀ e ∈ es, e.IsConfined (es.flatMap Emission.runningFields) := by
  intro e mem
  have planned := (planned_of_plan h.planned).1
  have named := isNamed_of_planBlocks h.planned
  have perm := h.arranged.map_plan_perm planned h.sound
  obtain ⟨known, emits⟩ := h.arranged.emits e mem
  obtain ⟨v, view⟩ := emits.exists_view planned h.sound known
  have tidy := view.isTidy_view named known
  have output {e : Emission} (mem : e ∈ es) {o : OutputField} (given : o ∈ e.plan.outputs) :
      IsClosed (es.flatMap Emission.runningFields) ("self." ++ o.field) := by
    obtain ⟨_, name⟩ := (named _ (h.arranged.emits e mem).1).exists_output given
    exact name.isClosed_path (List.mem_flatMap.mpr
      ⟨e, mem, List.mem_append_right _ (List.mem_map_of_mem given)⟩)
  have runs : v.RunsOn (Rule.ofType e.plan.type) (es.flatMap Emission.runningFields) := by
    refine ⟨fun o given => output mem (view.plan ▸ given), fun some => ?_, fun w hw => ?_⟩
    · obtain ⟨s, given⟩ := Option.isSome_iff_exists.mp some
      have state : v.stateField s ∈ e.state := by
        rw [view.emission]
        exact Option.mem_map_of_mem _ given
      exact (BlockView.isFieldName_stateName tidy).isClosed_path (List.mem_flatMap.mpr
        ⟨e, mem, List.mem_append_left _ (List.mem_map_of_mem (Option.mem_toList.mpr state))⟩)
    · obtain ⟨p, listed, source, given, _, converted⟩ := view.wires w hw
      obtain ⟨e', written, rfl⟩ := List.mem_map.mp (perm.mem_iff.mpr listed)
      exact isClosed_of_convert? (output written given) converted
  rw [view.emission]
  exact runs.isConfined_emission (h.isKnown mem view) (Rule.isSpaced_ofType _)
    (Rule.isGuarded_ofType _)

/-- The lines of a function are read one by one. -/
theorem Compiles.assignedIn_eq (h : Compiles o catalog d compiled plans es)
    (checked : o.check = .ok ()) {f : FunctionPart} {name : String}
    (found : (o.program d es).functions.find? (·.name = name) = some f) :
    assignedIn name compiled.code
      = assigned (f.body.flatMap fun entry => lineWords entry.text.toList) := by
  have closed : ∀ text ∈ f.body.map Entry.text, IsClosedLine (fieldNames es) text := by
    rw [List.forall_mem_map]
    intro entry mem
    have listed : entry ∈ (o.program d es).entries ++ [.plain .blank] := by
      rw [Program.entries_eq_functions]
      exact List.mem_append_right _ (List.mem_flatMap.mpr
        ⟨f, List.mem_of_find?_eq_some found, List.mem_cons_of_mem _ mem⟩)
    rcases List.mem_append.mp listed with known | last
    · exact h.isClosedLine checked entry known
    · rw [List.mem_singleton.mp last]
      exact isClosed_empty.isClosedLine
  have lines := words_lines closed
  rw [List.flatMap_map, List.flatMap_map] at lines
  rw [assignedIn, h.functionLines_eq found, assignedFields, List.flatMap_map]
  exact congrArg assigned lines

/-- The fields of a strategy are, block by block, those of parameters and those that run. -/
theorem fieldNames_eq (es : List Emission) : fieldNames es
    = es.flatMap fun e => e.plan.params.map (·.field) ++ e.runningFields :=
  List.flatMap_congr fun e _ => e.map_name_rows

/-- No field is that of a parameter and changes while the code runs. -/
theorem Compiles.nodup_parameters_and_running (h : Compiles o catalog d compiled plans es) :
    (es.flatMap (fun e => e.plan.params.map (·.field))
      ++ es.flatMap Emission.runningFields).Nodup := by
  have distinct : (fieldNames es).Nodup := h.arranged.nodup_fields h.sound h.planned
  rw [fieldNames_eq] at distinct
  exact (List.flatMap_append_perm es _ _).nodup_iff.mpr distinct

/-- A reset assigns the states and outputs of the blocks, in the order in which they are
declared. -/
theorem Compiles.assignedIn_reset (h : Compiles o catalog d compiled plans es)
    (checked : o.check = .ok ()) :
    assignedIn "reset" compiled.code = es.flatMap Emission.runningFields := by
  have lines : (es.flatMap Emission.resetLines).flatMap (fun entry => lineWords entry.text.toList)
      = (es.flatMap Emission.resets).flatMap fun a => lineWords a.text.toList := by
    rw [List.flatMap_assoc, List.flatMap_assoc]
    refine List.flatMap_congr fun e _ => ?_
    rw [Emission.resetLines, List.flatMap_map]
    rfl
  have fields : (es.flatMap Emission.resets).map (·.field) = es.flatMap Emission.runningFields := by
    rw [List.map_flatMap]
    exact List.flatMap_congr fun e _ => e.map_field_resets
  have each : ∀ a ∈ es.flatMap Emission.resets, ∀ more,
      assigned (lineWords a.text.toList ++ more) = a.field :: assigned more := by
    intro a mem
    obtain ⟨e, known, listed⟩ := List.mem_flatMap.mp mem
    exact (h.isConfined e known).assigned_resetLine (h.isClosed e known) listed
  have rest : assigned ([Program.closingBrace, .plain .blank].flatMap
      fun entry => lineWords entry.text.toList) = [] := by decide
  rw [h.assignedIn_eq checked (o.program d es).find?_reset, List.flatMap_append]
  show assigned ((es.flatMap Emission.resetLines).flatMap _ ++ _) = _
  rw [lines, assigned_flatMap each, rest, List.append_nil, fields]

/-- The run of the blocks assigns states and outputs of blocks only. -/
theorem Compiles.assignedIn_execute (h : Compiles o catalog d compiled plans es)
    (checked : o.check = .ok ()) :
    assignedIn "execute" compiled.code ⊆ es.flatMap Emission.runningFields := by
  have found : (o.program d es).functions.find? (·.name = "execute") = some ⟨"execute",
      "pub fn execute(&mut self, tick: &Tick) -> Vec<Signal> \x7b",
      (o.program d es).execution.drop 2 ++ (o.program d es).resetting.take 1⟩ := rfl
  have fixed {cs : List Char} (h : isFixedLine cs = true) :
      Confined (es.flatMap Emission.runningFields) (lineWords (String.ofList cs).toList) :=
    (isClosedLine_of_isFixedLine h).confined
  rw [h.assignedIn_eq checked found]
  refine Confined.subset (Confined.flatMap ?_)
  simp only [Program.execution, Program.resetting, Program.closingBrace, List.map_cons,
    List.map_nil, List.cons_append, List.nil_append, List.drop_succ_cons, List.drop_zero,
    List.take_succ_cons, List.take_zero, List.forall_mem_append, List.forall_mem_cons,
    List.forall_mem_flatMap, List.not_mem_nil, false_imp_iff, implies_true, and_true]
  have blocks : ∀ e ∈ es, ∀ entry ∈ e.updates,
      Confined (es.flatMap Emission.runningFields) (lineWords entry.text.toList) :=
    fun e mem => (h.isConfined e mem).updates (h.isClosed e mem)
  exact ⟨fixed (by decide), ⟨blocks, confined_nil, fixed (by decide), fixed (by decide),
    confined_nil⟩, fixed (by decide)⟩

end

/-! ## A strategy with a state -/

/-- A strategy that logs an average of the price. -/
def averageLog : Definition where
  id := "s1"
  name := "Average"
  description := ""
  version := 1
  blocks := [
    { id := "log"
      type := "log"
      category := .output
      name := "Log"
      description := ""
      position := .origin
      size := .usual
      inputs := [⟨"log:in:value", "Value", .any, true⟩]
      outputs := []
      properties := [
        ⟨"level", "Level", .string, some (.text "info"), true, none, none, []⟩,
        ⟨"message", "Message", .string, some (.text "seen"), true, none, none, []⟩] },
    { id := "average"
      type := "sma"
      category := .indicator
      name := "Average"
      description := ""
      position := .origin
      size := .usual
      inputs := [⟨"average:in:source", "Source", .number, true⟩]
      outputs := [⟨"average:out:value", "Value", .indicator⟩]
      properties := [⟨"period", "Period", .number, some (.number 14), true, none, none, []⟩] },
    { id := "feed"
      type := "market_data"
      category := .data
      name := "Feed"
      description := ""
      position := .origin
      size := .usual
      inputs := []
      outputs := [⟨"feed:out:price", "Price", .number⟩, ⟨"feed:out:volume", "Volume", .number⟩,
        ⟨"feed:out:candle", "Candle", .candle⟩]
      properties := [] }]
  connections := [
    ⟨"price", "feed", "feed:out:price", "average", "average:in:source", .number⟩,
    ⟨"value", "average", "average:out:value", "log", "log:in:value", .indicator⟩]
  metadata := ⟨⟨0, 0⟩, ⟨0, 0⟩, "", []⟩

theorem isOk_compile_averageLog : ∃ compiled, compile .default ⟨[]⟩ averageLog = .ok compiled :=
  exists_of_isSome_toOption (by decide +kernel)

section

variable {o : Options} {catalog : Catalog} {d : Definition} {compiled : Compiled}

/-- The construction names the declared fields, each once and in order. They are the parameters, the
states and the outputs of the blocks. A reset assigns every state and every output once and nothing
else, and neither a reset nor the run of the blocks assigns a parameter. -/
theorem assignedIn_of_compile (h : compile o catalog d = .ok compiled) :
    (initializers compiled.code).map (·.1) = declaredFields compiled.code
    ∧ (declaredFields compiled.code).Nodup
    ∧ ∃ es, emissions catalog d = .ok es
      ∧ declaredFields compiled.code
        = es.flatMap (fun e => e.plan.params.map (·.field) ++ e.runningFields)
      ∧ assignedIn "reset" compiled.code = es.flatMap Emission.runningFields
      ∧ (assignedIn "reset" compiled.code).Nodup
      ∧ ∀ e ∈ es, ∀ p ∈ e.plan.params, p.field ∉ assignedIn "reset" compiled.code
        ∧ p.field ∉ assignedIn "execute" compiled.code := by
  obtain ⟨checked, -, es, emitted, -⟩ := compile_eq_ok h
  obtain ⟨plans, c⟩ := exists_compiles_of_emissions h emitted
  obtain ⟨-, running, disjoint⟩ := List.nodup_append'.mp c.nodup_parameters_and_running
  rw [c.assignedIn_reset checked, c.declaredFields_eq]
  refine ⟨c.map_fst_initializers, c.arranged.nodup_fields c.sound c.planned, es, emitted,
    fieldNames_eq es, rfl, running, fun e mem p listed => ?_⟩
  have param : p.field ∈ es.flatMap fun e => e.plan.params.map (·.field) :=
    List.mem_flatMap.mpr ⟨e, mem, List.mem_map_of_mem listed⟩
  exact ⟨disjoint param, fun run => disjoint param (c.assignedIn_execute checked run)⟩

/-- The reset of an average assigns to its states and outputs, and its parameters are assigned
nowhere in a run. -/
theorem assignedIn_averageLog : ∃ compiled, compile .default ⟨[]⟩ averageLog = .ok compiled
    ∧ assignedIn "reset" compiled.code
      = ["o_feed_price", "o_feed_volume", "o_feed_candle", "s_average", "o_average_value"]
    ∧ "p_average_period" ∉ assignedIn "execute" compiled.code := by
  obtain ⟨compiled, h⟩ := isOk_compile_averageLog
  obtain ⟨-, -, es, emitted, -, reset, -, kept⟩ := assignedIn_of_compile h
  have fields : (emissions ⟨[]⟩ averageLog).toOption.map (fun es =>
      (es.flatMap Emission.runningFields, es.flatMap fun e => e.plan.params.map (·.field)))
        = some (["o_feed_price", "o_feed_volume", "o_feed_candle", "s_average", "o_average_value"],
          ["p_average_period", "p_log_level", "p_log_message"]) := by decide +kernel
  rw [emitted] at fields
  obtain ⟨running, params⟩ := Prod.mk.inj (Option.some.inj fields)
  have period : "p_average_period" ∈ es.flatMap fun e => e.plan.params.map (·.field) := by
    rw [params]
    exact List.mem_cons_self
  obtain ⟨e, mem, field⟩ := List.mem_flatMap.mp period
  obtain ⟨p, listed, same⟩ := List.mem_map.mp field
  exact ⟨compiled, h, reset.trans running, same ▸ (kept e mem p listed).2⟩

end

end StrategyCanvas.Code
