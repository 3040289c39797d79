import Mathlib.Data.List.TakeWhile
import StrategyCanvas.Proofs.Code.DeclaredFields
import StrategyCanvas.Proofs.Finding.Acceptance

/-!
# What fields start with

The initial values of the fields are read off the text of the code. They are those of the blocks
(`Program.initializers_text`), and a field that is made from a property with a value starts with
this value, provided that the value is of the kind of the property (`initializers_of_compile`).
Validation sees to that unless the value is blank text, which counts as none.
-/

namespace StrategyCanvas.Code

open Text

/-! ## Reading initial values -/

/-- A line without the spaces in front of it. -/
def unindented (line : List Char) : List Char := line.dropWhile (· = ' ')

/-- The lines between the one that begins the construction and the first that is a closing brace. -/
def constructionLines (lines : List (List Char)) : List (List Char) :=
  ((lines.dropWhile (· ≠ "Self \x7b".toList)).drop 1).takeWhile (· ≠ ['\x7d'])

/-- The name in front of the colon, and the text between the colon and the comma at the end. -/
def initialValue (line : List Char) : String × String :=
  (String.ofList (line.takeWhile (· ≠ ':')),
    String.ofList (((line.dropWhile (· ≠ ':')).drop 2).dropLast))

/-- The names of the fields that the construction in a text of code sets, and what it sets them
to. -/
def initializers (code : String) : List (String × String) :=
  (constructionLines ((linesOf code).map unindented)).map initialValue

/-- The lines of the construction are those between its opening and the next brace. -/
theorem constructionLines_eq {front body rest : List (List Char)}
    (before : ∀ l ∈ front, l ≠ "Self \x7b".toList) (inside : ∀ l ∈ body, l ≠ ['\x7d']) :
    constructionLines (front ++ "Self \x7b".toList :: (body ++ ['\x7d'] :: rest)) = body := by
  have stop : List.takeWhile (fun l => decide (l ≠ ['\x7d'])) (['\x7d'] :: rest) = [] :=
    List.takeWhile_cons_of_neg (by simp)
  rw [constructionLines, List.dropWhile_append_of_pos fun l mem => decide_eq_true (before l mem),
    List.dropWhile_cons_of_neg (by simp), List.drop_one, List.tail_cons,
    List.takeWhile_append_of_pos fun l mem => decide_eq_true (inside l mem), stop, List.append_nil]

theorem unindented_indent (indent : Nat) (cs : List Char) :
    unindented (List.replicate indent ' ' ++ cs) = unindented cs :=
  List.dropWhile_append_of_pos (by simp)

/-- A text that does not begin with a space has no indentation to lose. -/
theorem unindented_of_beginsSolid {s : String} (solid : beginsSolid s = true) :
    unindented s.toList = s.toList := by
  have text := dropWhile_indent solid 0
  rwa [List.replicate_zero, List.nil_append] at text

/-- A line differs from a text that lacks one of its characters. -/
theorem unindented_ne {cs text : List Char} {c : Char} (mem : c ∈ cs) (solid : c ≠ ' ')
    (absent : c ∉ text) : unindented cs ≠ text := by
  intro same
  have kept : c ∈ unindented cs := by
    rw [← List.takeWhile_append_dropWhile (p := (· = ' ')) (l := cs), List.mem_append] at mem
    refine mem.resolve_left fun blank => ?_
    have := List.mem_takeWhile_imp blank
    exact solid (by simpa using this)
  rw [same] at kept
  exact absent kept

/-- The initial value of a field is read from its line, whatever the value is. -/
theorem initialValue_field {letter : Char} {name : String} (h : IsFieldName letter name)
    (value : String) :
    initialValue (unindented (name ++ ": " ++ value ++ ",").toList) = (name, value) := by
  have solid : beginsSolid (name ++ ": " ++ value ++ ",") = true := by
    simp only [String.append_assoc]
    exact beginsSolid_append h.isCodeLine.solid _
  have bare : unindented (name ++ ": " ++ value ++ ",").toList
      = name.toList ++ ':' :: ' ' :: (value.toList ++ [',']) := by
    rw [unindented_of_beginsSolid solid]
    simp
  have letters : ∀ c ∈ name.toList, decide (c ≠ ':') = true := by
    intro c mem
    refine decide_eq_true ?_
    rintro rfl
    have letter := h.isWord ':' mem
    contradiction
  rw [bare, initialValue, List.takeWhile_append_of_pos letters,
    List.dropWhile_append_of_pos letters]
  simp

/-! ## Programs -/

/-- A line that does not begin the construction: it is blank, or it has a character that the line
which does so lacks. -/
def Entry.IsAside (entry : Entry) : Prop :=
  entry.text = "" ∨ ∃ c ∈ entry.text.toList, c ∉ "Self \x7b".toList

/-- A line that stands aside does not open the construction. -/
theorem Entry.IsAside.unindented_ne {entry : Entry} (h : entry.IsAside) :
    unindented entry.text.toList ≠ "Self \x7b".toList := by
  rcases h with blank | ⟨c, mem, absent⟩
  · rw [blank]
    decide
  · refine Code.unindented_ne mem ?_ absent
    rintro rfl
    exact absent (by decide)

/-- No declaration opens the construction. -/
theorem Emission.isAside_declarations (e : Emission) :
    ∀ entry ∈ e.declarations, entry.IsAside := by
  rw [declarations, List.forall_mem_cons, List.forall_mem_map]
  refine ⟨.inr ⟨'/', ?_, by decide⟩, fun r _ => .inr ⟨':', ?_, by decide⟩⟩
  · simp [comment, Entry.text, Entry.ofBlock, Stroke.text?]
  · simp [Entry.text, Entry.ofBlock, Stroke.text?]

namespace Program

variable {p : Program}

/-- The entries above the line that begins the construction. -/
def prelude (p : Program) : List Entry :=
  p.heading ++ p.declaration ++ p.functionsOpening
    ++ [.plain (.opening "pub fn new() -> Self \x7b")]

/-- A program is a prelude and the initializers of all blocks, up to the closing brace. -/
theorem exists_entries_eq (p : Program) : ∃ rest, p.entries = p.prelude
    ++ .plain (.opening "Self \x7b") :: (p.blocks.flatMap Emission.initializers
      ++ closingBrace :: rest) := by
  refine ⟨closingBrace :: .plain .blank :: (p.execution ++ p.resetting ++ p.getter ++ p.setter
    ++ p.keyList ++ p.defaulting), ?_⟩
  simp only [entries, construction, prelude, List.append_assoc, List.map_cons, List.map_nil,
    List.cons_append, List.nil_append]

/-- Nothing in front of the construction opens it. -/
theorem isAside_prelude (p : Program) : ∀ entry ∈ p.prelude, entry.IsAside := by
  have blank : (Entry.plain .blank).IsAside := .inl rfl
  have plain (c : Char) {s : Stroke String} (mem : c ∈ (s.text?.getD "").toList)
      (absent : c ∉ "Self \x7b".toList) : (Entry.plain s).IsAside := .inr ⟨c, mem, absent⟩
  simp only [prelude, heading, declaration, functionsOpening, closingBrace, List.map_cons,
    List.map_nil, List.forall_mem_append, List.forall_mem_cons, List.forall_mem_flatMap]
  refine ⟨⟨⟨⟨plain '/' ?_ (by decide), plain '/' ?_ (by decide), blank, plain ':' ?_ (by decide),
    blank, by simp⟩, ⟨⟨plain '/' ?_ (by decide), plain '#' ?_ (by decide),
    plain 'p' ?_ (by decide), by simp⟩, fun e _ => e.isAside_declarations⟩,
    plain '\x7d' ?_ (by decide), blank, by simp⟩, plain '#' ?_ (by decide),
    plain 'i' ?_ (by decide),
    by simp⟩, plain 'p' ?_ (by decide), by simp⟩
  all_goals simp [Stroke.text?]

/-- The lines of the text of a program without their indentation. -/
theorem map_unindented_linesOf (tidy : ∀ entry ∈ p.entries, IsOneLine entry.text) (unit : Nat) :
    (linesOf (p.text unit)).map unindented
      = p.entries.map (fun entry => unindented entry.text.toList) ++ [[]] := by
  have texts : (p.lines unit).map (fun l => unindented l.chars)
      = ((p.lines unit).map (·.text)).map fun text => unindented text.toList := by
    rw [List.map_map]
    exact List.map_congr_left fun l _ => unindented_indent l.indent l.text.toList
  rw [linesOf_text tidy, List.map_append, List.map_map]
  show (p.lines unit).map (fun l => unindented l.chars) ++ [[]] = _
  rw [texts, lines, map_text_lay, List.map_map, List.map_map]
  rfl

/-- The construction in the text of a program sets the fields of its blocks, and no others. -/
theorem initializers_text (tidy : ∀ entry ∈ p.entries, IsOneLine entry.text)
    (blocks : ∀ e ∈ p.blocks, e.IsTidy) (unit : Nat) : initializers (p.text unit)
      = p.blocks.flatMap fun e => e.rows.map fun r => (r.name, r.initializer) := by
  obtain ⟨rest, split⟩ := p.exists_entries_eq
  have before : ∀ l ∈ p.prelude.map (fun entry => unindented entry.text.toList),
      l ≠ "Self \x7b".toList := by
    rw [List.forall_mem_map]
    exact fun entry mem => (p.isAside_prelude entry mem).unindented_ne
  have inside : ∀ l ∈ (p.blocks.flatMap Emission.initializers).map
      (fun entry => unindented entry.text.toList), l ≠ ['\x7d'] := by
    rw [List.forall_mem_map, List.forall_mem_flatMap]
    intro e _ entry mem
    obtain ⟨r, -, rfl⟩ := List.mem_map.mp mem
    refine unindented_ne (c := ':') ?_ (by decide) (by decide)
    simp [Entry.text, Entry.ofBlock, Stroke.text?]
  have values (e : Emission) (mem : e ∈ p.blocks) : (e.initializers.map fun entry =>
      initialValue (unindented entry.text.toList))
        = e.rows.map fun r => (r.name, r.initializer) := by
    rw [Emission.initializers, List.map_map]
    refine List.map_congr_left fun r row => ?_
    obtain ⟨⟨_, name⟩, -⟩ := (blocks e mem).rows r row
    exact initialValue_field name r.initializer
  have lines := map_unindented_linesOf tidy unit
  rw [split, List.map_append, List.map_cons, List.map_append, List.map_cons, List.append_assoc,
    List.cons_append, List.append_assoc, List.cons_append] at lines
  rw [initializers, lines]
  calc (constructionLines _).map initialValue
      = ((p.blocks.flatMap Emission.initializers).map
          fun entry => unindented entry.text.toList).map initialValue :=
        congrArg (List.map initialValue) (constructionLines_eq before inside)
    _ = p.blocks.flatMap fun e => e.rows.map fun r => (r.name, r.initializer) := by
        rw [List.map_map, List.map_flatMap]
        exact List.flatMap_congr values

end Program

/-! ## Values -/

/-- A value in code. -/
def literalOf : PropertyValue → String
  | .number x => numberLiteral x
  | .text s => quote s ++ ".to_string()"
  | .boolean b => booleanLiteral b

/-- A value of the kind of its property is written as it is. -/
theorem Param.initializer_of_fits {p : Param} {kind : PropertyKind} {v : PropertyValue}
    (ofKind : p.kind = .ofProperty kind) (value : p.value = some v) (fits : v.fits kind = true) :
    p.initializer = literalOf v := by
  unfold initializer literal
  rw [ofKind, value]
  cases v with
  | number x =>
    cases kind with
    | number => rfl
    | string | select | boolean => contradiction
  | text s =>
    cases kind with
    | string | select => rfl
    | number | boolean => contradiction
  | boolean b =>
    cases kind with
    | boolean => rfl
    | number | string | select => contradiction

/-! ## Compiled strategies -/

section

variable {o : Options} {catalog : Catalog} {d : Definition} {compiled : Compiled}
  {plans : List BlockPlan} {es : List Emission} {b : Block} {i : Nat} {p : Property}
  {v : PropertyValue}

/-- The initial values that the code has are those of all blocks, in their order. -/
theorem Compiles.initializers_eq (h : Compiles o catalog d compiled plans es) :
    initializers compiled.code
      = es.flatMap fun e => e.rows.map fun r => (r.name, r.initializer) := by
  rw [h.code_eq]
  exact Program.initializers_text (fun entry mem => (h.tidy entry mem).isOneLine)
    (fun e mem => (h.isClosed e mem).tidy) o.indent

/-- The construction sets the fields that the structure declares, in their order. -/
theorem Compiles.map_fst_initializers (h : Compiles o catalog d compiled plans es) :
    (initializers compiled.code).map (·.1) = fieldNames es := by
  rw [h.initializers_eq, List.map_flatMap]
  simp only [List.map_map, Function.comp_def]
  rfl

/-- The parameter of a property is where the property is, and its field is set. -/
theorem Compiles.exists_param (h : Compiles o catalog d compiled plans es) (known : b ∈ d.blocks)
    (here : b.properties[i]? = some p) : ∃ plan ∈ plans, plan.block = b ∧ ∃ param,
      plan.params[i]? = some param ∧ param.setting = ⟨p.name, .ofProperty p.kind, p.value⟩
      ∧ (param.field, param.initializer) ∈ initializers compiled.code := by
  have planned := (planned_of_plan h.planned).1
  obtain ⟨plan, listed, isFor⟩ := planned.exists_plan b known
  have setting : (plan.params.map Param.setting)[i]?
      = some ⟨p.name, .ofProperty p.kind, p.value⟩ := by
    obtain ⟨bound, _⟩ := List.getElem?_eq_some_iff.mp here
    rw [isFor.params]
    unfold settings
    rw [List.getElem?_append_left (by rwa [List.length_map]), List.getElem?_map, here]
    rfl
  rw [List.getElem?_map] at setting
  obtain ⟨param, there, made⟩ := Option.map_eq_some_iff.mp setting
  refine ⟨plan, listed, isFor.block, param, there, made, ?_⟩
  obtain ⟨e, emitted, rfl⟩ :=
    List.mem_map.mp ((h.arranged.map_plan_perm planned h.sound).mem_iff.mpr listed)
  rw [h.initializers_eq]
  refine List.mem_flatMap.mpr ⟨e, emitted, List.mem_map.mpr
    ⟨⟨param.field, param.kind.type, param.initializer, .parameter⟩, ?_, rfl⟩⟩
  refine List.mem_append_left _ (List.mem_append_left _ ?_)
  exact List.mem_map_of_mem (List.mem_of_getElem? there)

/-- In a compiled strategy every value that is present suits its property, unless it is blank text
in a property that is not required. A value of the kind of its property is what the field of the
property starts with, and no field is set twice. -/
theorem initializers_of_compile (h : compile o catalog d = .ok compiled) :
    ((initializers compiled.code).map (·.1)).Nodup
    ∧ ∃ plans, plan catalog d = .ok plans ∧ ∀ b ∈ d.blocks,
      ∀ (i : Nat) (p : Property) (v : PropertyValue), b.properties[i]? = some p → p.value = some v →
        (v.isEmpty = false → p.Suits v) ∧ (v.isEmpty = true → p.required = false)
        ∧ (v.fits p.kind = true → ∃ plan ∈ plans, plan.block = b ∧ ∃ param,
          plan.params[i]? = some param ∧ param.property = p.name
          ∧ (param.field, literalOf v) ∈ initializers compiled.code) := by
  have harmless := (compile_eq_ok h).2.1
  obtain ⟨plans, es, c⟩ := exists_compiles h
  refine ⟨?_, plans, c.planned, fun b known i p v here value => ?_⟩
  · rw [c.map_fst_initializers]
    exact c.arranged.nodup_fields c.sound c.planned
  · have acceptable := ((Definition.error_free_iff (List.ne_nil_of_mem known)).mp harmless).2
    have settled := acceptable.settled b known p (List.mem_of_getElem? here)
    refine ⟨settled.suits value, settled.required_eq_false value, fun fits => ?_⟩
    obtain ⟨plan, listed, block, param, there, made, set⟩ := c.exists_param known here
    have written : param.initializer = literalOf v :=
      Param.initializer_of_fits (congrArg Setting.kind made)
        ((congrArg Setting.value made).trans value) fits
    rw [written] at set
    exact ⟨plan, listed, block, param, there, congrArg Setting.name made, set⟩

/-- A message that reads like code is initialized by its literal. -/
theorem initializers_priceLog : ∃ compiled, compile .default ⟨[]⟩ priceLog = .ok compiled
    ∧ ∃ field, (field, literalOf (.text "self.o_feed_price\n")) ∈ initializers compiled.code := by
  obtain ⟨compiled, h⟩ := isOk_compile_priceLog
  obtain ⟨-, plans, -, values⟩ := initializers_of_compile h
  obtain ⟨-, -, starts⟩ := values _ List.mem_cons_self 1 _ (.text "self.o_feed_price\n") rfl rfl
  obtain ⟨-, -, -, param, -, -, set⟩ := starts rfl
  exact ⟨compiled, h, param.field, set⟩

end

/-! ## Blank text -/

/-- A strategy with blank text for a limit, which is a number and not required. -/
def blankLimit : Definition where
  id := "s1"
  name := "Limits"
  description := ""
  version := 1
  blocks := [
    { id := "log"
      type := "log"
      category := .output
      name := "Log"
      description := ""
      position := .origin
      size := .usual
      inputs := [⟨"log:in:value", "Value", .any, false⟩]
      outputs := []
      properties := [
        ⟨"level", "Level", .string, some (.text "info"), true, none, none, []⟩,
        ⟨"message", "Message", .string, some (.text "seen"), true, none, none, []⟩,
        ⟨"limit", "Limit", .number, some (.text ""), false, none, none, []⟩] }]
  connections := []
  metadata := ⟨⟨0, 0⟩, ⟨0, 0⟩, "t", []⟩

/-- Blank text is let pass where a number is asked for, and zero is set in its place. -/
theorem initializers_blankLimit : ∃ compiled, compile .default ⟨[]⟩ blankLimit = .ok compiled
    ∧ ∃ b ∈ blankLimit.blocks, ∃ p ∈ b.properties, p.value = some (.text "")
      ∧ PropertyValue.fits (.text "") p.kind = false
      ∧ ∃ field, (field, numberLiteral 0) ∈ initializers compiled.code := by
  obtain ⟨compiled, h⟩ : ∃ compiled, compile .default ⟨[]⟩ blankLimit = .ok compiled :=
    exists_of_isSome_toOption (by decide +kernel)
  have here : blankLimit.blocks[0].properties[2]? = some blankLimit.blocks[0].properties[2] := rfl
  obtain ⟨plans, es, c⟩ := exists_compiles h
  obtain ⟨plan, -, -, param, -, made, set⟩ := c.exists_param List.mem_cons_self here
  have zero : param.initializer = numberLiteral 0 := by
    obtain ⟨-, kind, value⟩ := Setting.mk.inj made
    rw [Param.initializer, Param.literal, kind, value]
    rfl
  rw [zero] at set
  exact ⟨compiled, h, _, List.mem_cons_self, _, List.mem_of_getElem? here, rfl, rfl, param.field,
    set⟩

end StrategyCanvas.Code
