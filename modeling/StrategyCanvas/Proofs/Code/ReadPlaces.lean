import StrategyCanvas.Proofs.Code.ConnectionLocations
import StrategyCanvas.Proofs.Code.Dataflow
import StrategyCanvas.Proofs.Code.DeclaredFields
import StrategyCanvas.Proofs.Code.Sources
import StrategyCanvas.Proofs.Text.Name

/-!
# The places where connections are read

The place of a connection is looked for in the finished text: it is the first one at which its
expression stands whole. What stands at one place reads one field and is one expression
(`eq_of_beginsWhole`), so places tell connections apart that start at different outputs. In the
lines of a rule the name of an output of another block comes from an input that reads it or from the
id of the block (`BlockView.input_of_mem_names`), so that an expression is found where its own value
is read unless it comes twice (`places_of_reads`).
-/

namespace StrategyCanvas

/-- No other connection that is read leads from the same output into the same block. -/
def Definition.ReadsAlone (d : Definition) (c : Connection) : Prop :=
  ∀ c' ∈ d.connections, d.IsRead c' → c'.targetBlockId = c.targetBlockId →
    c'.sourceOutputId = c.sourceOutputId → c' = c

namespace Code

open Text

/-! ## Expressions -/

theorem IsFieldName.isName {letter : Char} {f : String} (h : IsFieldName letter f) :
    isName f.toList = true := by
  obtain ⟨-, word, chars, -⟩ := h
  rw [chars]
  rfl

/-- The only name in the path of a field is that of the field. -/
theorem IsFieldName.names_path {letter : Char} {f : String} (h : IsFieldName letter f) :
    names ("self." ++ f).toList = [f.toList] := by
  have name := h.isName
  rw [names, words_path h.isWord h.ne_empty, List.filter_cons_of_neg (by decide),
    List.filter_cons_of_neg (by decide), List.filter_singleton, name]
  rfl

/-- The name of a converter is no name of a field. -/
theorem IsConverter.names_eq_nil {name : String} (h : IsConverter name) :
    names name.toList = [] := by
  by_cases some : name = ""
  · rw [some]
    rfl
  · rw [names, words_of_isWord h.1 some, List.filter_singleton]
    simp [isName, h.2.2]

/-- What stands in front of a field and behind it where it is read as a value of some kind. Neither
has a name in it, and what stands behind is known from the kind of the field and what stands in
front. -/
structure Encloses (pre post : List Char) (source : DataKind) : Prop where
  ends : endsApart pre = true
  new : IsNew post
  nameless : names pre = [] ∧ names post = []
  unquoted : '"' ∉ pre ∧ '"' ∉ post
  behind : post = if pre = "self.".toList then (if isCopied source then [] else ".clone()".toList)
    else [')']

/-- A converted field stands in its expression, enclosed by what converts it. -/
theorem exists_encloses {field expr : String} {source target : DataKind}
    (h : convert? field source target = some expr) : ∃ pre post,
      expr.toList = pre ++ field.toList ++ post ∧ Encloses pre post source := by
  rcases eq_of_convert? h with
    ⟨copied, rfl⟩ | ⟨cloned, rfl⟩ | ⟨name, argument, converter, given, rfl⟩
  · refine ⟨"self.".toList, [], by simp, by decide, .inl rfl, by decide +kernel, by decide, ?_⟩
    rw [copied]
    rfl
  · refine ⟨"self.".toList, ".clone()".toList, by simp, by decide, .inr (by decide),
      by decide +kernel, by decide, ?_⟩
    rw [cloned]
    rfl
  · -- only the opening of the call depends on whether the field is borrowed
    have call (opening : List Char) (begins : beginsApart opening = true)
        (ends : endsApart opening = true) (nameless : names opening = [])
        (unquoted : '"' ∉ opening) :
        Encloses ("convert::".toList ++ name.toList ++ opening) [')'] source := by
      refine ⟨endsApart_append ends _, .inr (by decide), ⟨?_, by decide +kernel⟩,
        ⟨?_, by decide⟩, ?_⟩
      · rw [names_append (.inr (.inr begins)), names_append (.inl (.inr (by decide))), nameless,
          converter.names_eq_nil]
        decide +kernel
      · have plain : '"' ∉ name.toList := fun mem => by
          have letter := converter.1 _ mem
          contradiction
        simp only [List.mem_append, not_or]
        exact ⟨⟨by decide, plain⟩, unquoted⟩
      · rw [if_neg]
        intro same
        have first := congrArg List.head? same
        simp at first
    rcases given with rfl | rfl
    · refine ⟨_, _, ?_, call "(self.".toList (by decide) (by decide)
        (by decide +kernel) (by decide)⟩
      simp
    · refine ⟨_, _, ?_, call "(&self.".toList (by decide) (by decide)
        (by decide +kernel) (by decide)⟩
      simp

/-- The field is the only name in an expression that reads it. -/
theorem names_of_convert? {field expr : String} {letter : Char} {source target : DataKind}
    (name : IsFieldName letter field) (h : convert? field source target = some expr) :
    names expr.toList = [field.toList] := by
  obtain ⟨pre, post, chars, encloses⟩ := exists_encloses h
  rw [chars, names_around name.isWord name.isName (.inr encloses.ends) encloses.new,
    encloses.nameless.1, encloses.nameless.2]
  rfl

section

variable {field field' expr expr' : String} {source source' : DataKind}
  {pre post pre' post' text : List Char}

/-- Where an expression stands whole, its field stands between what encloses it. -/
theorem Encloses.exists_split (h : Encloses pre post source)
    (chars : expr.toList = pre ++ field.toList ++ post) (whole : BeginsWhole expr.toList text) :
    ∃ rest, text = pre ++ field.toList ++ (post ++ rest) ∧ IsNew (post ++ rest) ∧ IsNew rest := by
  obtain ⟨rest, rfl, new⟩ := beginsWhole_iff_isNew.mp whole
  refine ⟨rest, by simp [chars], ?_, new⟩
  rcases h.new with rfl | begins
  · exact new
  · exact .inr (beginsApart_append begins rest)

/-- Expressions that stand whole at one place read the same field, and if it is of one kind, they
are the same. -/
theorem eq_of_beginsWhole {letter letter' : Char} (name : IsFieldName letter field)
    (name' : IsFieldName letter' field') {target target' : DataKind}
    (converted : convert? field source target = some expr)
    (converted' : convert? field' source' target' = some expr')
    (whole : BeginsWhole expr.toList text) (whole' : BeginsWhole expr'.toList text) :
    field = field' ∧ (source = source' → expr = expr') := by
  obtain ⟨pre, post, chars, encloses⟩ := exists_encloses converted
  obtain ⟨pre', post', chars', encloses'⟩ := exists_encloses converted'
  obtain ⟨rest, here, new, -⟩ := encloses.exists_split chars whole
  obtain ⟨rest', here', new', -⟩ := encloses'.exists_split chars' whole'
  -- the field is the first name in the text
  have first : names text = field.toList :: names (post ++ rest) := by
    rw [here, names_around name.isWord name.isName (.inr encloses.ends) new, encloses.nameless.1]
    rfl
  have first' : names text = field'.toList :: names (post' ++ rest') := by
    rw [here', names_around name'.isWord name'.isName (.inr encloses'.ends) new',
      encloses'.nameless.1]
    rfl
  obtain rfl : field = field' := String.toList_inj.mp (List.cons.inj (first.symm.trans first')).1
  refine ⟨rfl, fun kind => ?_⟩
  subst kind
  obtain rfl : pre = pre' := eq_of_names_eq_nil name.isWord name.isName (.inr encloses.ends)
    (.inr encloses'.ends) encloses.nameless.1 encloses'.nameless.1 new new' (here.symm.trans here')
  rw [← String.toList_inj, chars, chars', encloses.behind, encloses'.behind]

end

/-! ## Pieces -/

/-- The text of a piece, as far as it is fixed, has no name in it. -/
def Piece.isNameless : Piece → Bool
  | .text s => (names s.toList).isEmpty
  | _ => true

/-- The fixed texts of all rules have no names of fields in them. -/
theorem Rule.isNameless_ofType (type : BlockType) :
    ∀ s ∈ (ofType type).update, ∀ pieces ∈ s.text?, pieces.all (·.isNameless) = true := by
  cases type <;> decide +kernel

/-- What stands for an input that is not connected names no field. -/
theorem names_fallback (kind : DataKind) : names (fallback kind).toList = [] := by
  cases kind <;> decide +kernel

/-- The value of a parameter names its field alone. -/
theorem Param.names_read {p : Param} {letter : Char} (h : IsFieldName letter p.field) :
    names p.read.toList = [p.field.toList] := by
  unfold read
  split
  · have front : ("&self." ++ p.field).toList = ['&'] ++ ("self." ++ p.field).toList := by simp
    rw [front, names_append (.inl (.inr (by decide))), h.names_path]
    rfl
  · exact h.names_path

namespace BlockView

variable {v : BlockView} {f name : String} (tidy : v.IsTidy) (foreign : f ∉ v.plan.fields)

include tidy foreign

/-- No property is read through the field of an output. -/
theorem not_mem_names_readProperty (name : String) :
    f.toList ∉ names (v.readProperty name).toList := by
  unfold readProperty
  cases found : v.param? name with
  | none => exact List.not_mem_nil
  | some p =>
    have mem := List.mem_of_find?_eq_some found
    obtain ⟨_, field⟩ := tidy.named.exists_param mem
    rw [Option.map_some, Option.getD_some, Param.names_read field, List.mem_singleton,
      String.toList_inj]
    rintro rfl
    exact foreign (List.mem_append_left _ (List.mem_map_of_mem mem))

/-- The name of the output of another block is in a piece only if the piece is an input that reads
it, or the id of the block. -/
theorem input_of_mem_names (output : IsFieldBase f) {piece : Piece}
    (nameless : piece.isNameless = true) (mem : f.toList ∈ names (v.render piece).toList) :
    piece = .blockId ∨ ∃ name slot w, piece.input? = some name ∧ v.input? name = some slot
      ∧ slot.source = some w := by
  have input {name : String} {otherwise : DataKind → String}
      (other : ∀ kind, f.toList ∉ names (otherwise kind).toList)
      (mem : f.toList ∈ names (v.readInput name otherwise).toList) :
      ∃ slot w, v.input? name = some slot ∧ slot.source = some w := by
    unfold readInput at mem
    split at mem
    · rename_i slot found
      split at mem
      · rename_i w source
        exact ⟨slot, w, found, source⟩
      · exact absurd mem (other _)
    · contradiction
  cases piece with
  | text s =>
    rw [render, List.isEmpty_iff.mp nameless] at mem
    contradiction
  | property name => exact absurd mem (not_mem_names_readProperty tidy foreign name)
  | input name =>
    obtain ⟨slot, w, found, source⟩ := input (fun kind => by simp [names_fallback kind]) mem
    exact .inr ⟨name, slot, w, rfl, found, source⟩
  | inputOr name other =>
    obtain ⟨slot, w, found, source⟩ :=
      input (fun _ => not_mem_names_readProperty tidy foreign other) mem
    exact .inr ⟨name, slot, w, rfl, found, source⟩
  | output name =>
    rw [render] at mem
    cases found : v.output? name with
    | none =>
      have nothing : names ("self." ++ "").toList = [] := by decide +kernel
      rw [found, Option.map_none, Option.getD_none, nothing] at mem
      contradiction
    | some o =>
      have listed := List.mem_of_find?_eq_some found
      obtain ⟨_, field⟩ := tidy.named.exists_output listed
      rw [found, Option.map_some, Option.getD_some, field.names_path, List.mem_singleton,
        String.toList_inj] at mem
      exact absurd (List.mem_append_right _ (List.mem_map_of_mem listed)) (mem ▸ foreign)
  | state =>
    rw [render, (isFieldName_stateName tidy).names_path, List.mem_singleton,
      String.toList_inj] at mem
    exact absurd mem output.ne_state
  | blockId => exact .inl rfl

end BlockView

/-! ## Lines -/

/-- The pieces of a line are kept apart by its fixed texts. -/
theorem isChain_render (v : BlockView) {pieces : List Piece}
    (spaced : Text.isSpaced (pieces.map (·.fixed?)) = true) :
    (pieces.map fun x => (v.render x).toList).IsChain
      fun a b => endsApart a = true ∨ beginsApart b = true := by
  obtain ⟨-, apart⟩ := Bool.and_eq_true_iff.mp spaced
  have apart := of_decide_eq_true apart
  rw [List.isChain_map] at apart ⊢
  refine apart.imp fun a b joint => ?_
  have fixed {piece : Piece} {p : List Char → Bool} (h : piece.fixed?.any p = true) :
      p (v.render piece).toList = true := by
    obtain ⟨cs, text, met⟩ := (Option.any_eq_true ..).mp h
    rwa [v.render_of_fixed? piece cs text, String.toList_ofList]
  exact (Bool.or_eq_true_iff.mp joint).imp fixed fixed

/-- A line is its pieces, one after the other. -/
theorem BlockView.toList_line (v : BlockView) (pieces : List Piece) :
    (v.line pieces).toList = (pieces.map fun x => (v.render x).toList).flatten := by
  simp [line, String.toList_join, List.flatMap, Function.comp_def]

/-- An expression that reads the output of another block stands whole in a line of a block only
where the line has an input that reads this output, unless it stands in the id of the block. -/
theorem BlockView.exists_input_of_beginsWhole {v : BlockView} {f expr : String} {source : DataKind}
    {pre post : List Char} {pieces : List Piece} {k : Nat} (tidy : v.IsTidy)
    (foreign : f ∉ v.plan.fields) (output : IsFieldBase f)
    (spaced : Text.isSpaced (pieces.map (·.fixed?)) = true)
    (nameless : pieces.all (·.isNameless) = true) (encloses : Encloses pre post source)
    (chars : expr.toList = pre ++ f.toList ++ post)
    (unquoted : wholeOffset? expr.toList (quote v.plan.block.id).toList = none)
    (whole : BeginsWhole expr.toList ((v.line pieces).toList.drop k)) :
    ∃ front piece back name slot w, pieces = front ++ piece :: back
      ∧ piece.input? = some name ∧ v.input? name = some slot ∧ slot.source = some w
      ∧ ∃ before behind, w.expr.toList = before ++ f.toList ++ behind
        ∧ IsOver before ∧ IsNew behind
        ∧ (v.line pieces).toList.take k ++ pre = (v.line front).toList ++ before := by
  obtain ⟨_, name⟩ := output.exists_letter
  obtain ⟨rest, text, new, beyond⟩ := encloses.exists_split chars whole
  have line : (pieces.map fun x => (v.render x).toList).flatten
      = (v.line pieces).toList.take k ++ pre ++ f.toList ++ (post ++ rest) := by
    rw [← v.toList_line, List.append_assoc, List.append_assoc, ← List.append_assoc pre, ← text,
      List.take_append_drop]
  have filled : f.toList ≠ [] := fun none => name.ne_empty (String.toList_eq_nil_iff.mp none)
  obtain ⟨before, part, after, left, right, split, here, first, last⟩ :=
    exists_part name.isWord filled (isChain_render v spaced) line
  have ended : IsOver left := by
    have ends : IsOver ((v.line pieces).toList.take k ++ pre) :=
      .inr (endsApart_append encloses.ends _)
    rw [first] at ends
    exact ends.of_append
  have stops : IsNew right := by
    rw [last] at new
    exact new.of_append
  obtain ⟨front, others, rfl, fronts, parts⟩ := List.map_eq_append_iff.mp split
  obtain ⟨piece, behind, rfl, rfl, -⟩ := List.map_eq_cons_iff.mp parts
  have known : piece ∈ front ++ piece :: behind := by simp
  have named : f.toList ∈ names (v.render piece).toList := by
    rw [here, names_around name.isWord name.isName ended stops]
    simp
  rcases input_of_mem_names tidy foreign output (List.all_eq_true.mp nameless piece known) named
    with rfl | ⟨slug, slot, w, input, found, source⟩
  · obtain ⟨j, within⟩ := exists_wholeOffset?_quote name.isWord filled encloses.unquoted beyond
      here first last
    rw [← chars, unquoted] at within
    exact absurd within.symm (Option.some_ne_none j)
  · refine ⟨front, piece, behind, slug, slot, w, rfl, input, found, source, left, right, ?_, ended,
      stops, ?_⟩
    · rw [← here, BlockView.render_of_source input found source]
    · rw [first, v.toList_line, fronts]

/-! ## Fields of outputs -/

section

variable {plans : List BlockPlan} (distinct : (plans.flatMap (·.fields)).Nodup) {p q : BlockPlan}
  (hp : p ∈ plans) (hq : q ∈ plans)

include distinct hp hq

/-- A field belongs to one plan only. -/
theorem plan_eq_of_mem_fields {f : String} (mem : f ∈ p.fields) (mem' : f ∈ q.fields) : p = q := by
  rcases rel_or_rel_of_pairwise (List.nodup_flatMap.mp distinct).2 hp hq with same | apart | apart
  · exact same
  · exact absurd mem' (apart mem)
  · exact absurd mem (apart mem')

/-- A field belongs to one output only. -/
theorem output_eq_of_field_eq {o o' : OutputField} (ho : o ∈ p.outputs) (ho' : o' ∈ q.outputs)
    (same : o.field = o'.field) : o = o' := by
  have field : o.field ∈ p.fields := List.mem_append_right _ (List.mem_map_of_mem ho)
  have field' : o'.field ∈ q.fields := List.mem_append_right _ (List.mem_map_of_mem ho')
  obtain rfl := plan_eq_of_mem_fields distinct hp hq field (same ▸ field')
  have own : (p.params.map (·.field) ++ p.outputs.map (·.field)).Nodup :=
    (List.nodup_flatMap.mp distinct).1 p hp
  exact List.inj_on_of_nodup_map own.of_append_right ho ho' same

end

/-! ## Reads -/

/-- A place at which a line of code has the input at which a connection arrives: in front of it
stand spaces and what the rule of the target has in front of the input. -/
def Location.IsReadOf (l : Location) (code : String) (d : Definition) (plans : List BlockPlan)
    (c : Connection) : Prop :=
  ∃ v : BlockView, v.plan ∈ plans ∧ v.plan.block.id = c.targetBlockId
    ∧ wires plans v.plan.block (d.incoming c.targetBlockId) = .ok v.wires
    ∧ ∃ s ∈ (Rule.ofType v.plan.type).update, ∃ front piece back name,
      s.text? = some (front ++ piece :: back) ∧ piece.input? = some name
      ∧ v.plan.block.arrival? c = some (slug name)
      ∧ ∃ indent, 1 ≤ l.line ∧ (linesOf code)[l.line - 1]?
          = some (List.replicate indent ' ' ++ (v.line (front ++ piece :: back)).toList)
        ∧ l.column = indent + (v.line front).length + 1

/-- What is known of the field that a wire into a block reads: it is planned for the output at which
the connection starts, and not for that block. -/
structure IsSourceOf (plans : List BlockPlan) (c : Connection) (reader : BlockPlan)
    (output : OutputField) : Prop where
  portId : output.portId = c.sourceOutputId
  planned : ∃ p ∈ plans, output ∈ p.outputs
  named : IsFieldBase output.field
  foreign : output.field ∉ reader.fields

/-- How a connection is read: its target reads a wire of it, which is found in a statement. -/
structure IsReadBy (o : Options) (d : Definition) (plans : List BlockPlan) (es : List Emission)
    (c : Connection) (e : Emission) (w : Wire) (place : Location) : Prop where
  listed : c ∈ d.connections
  known : e ∈ es
  target : c.targetBlockId = e.blockId
  reads : w ∈ e.reads
  joins : ∃ port output, w.Joins plans e.plan.block c port output
  found : w.location? (statementLines ((o.program d es).markedLines o.indent) e.blockId)
    = some place

section

variable {o : Options} {catalog : Catalog} {d : Definition} {compiled : Compiled}
  {plans : List BlockPlan} {es : List Emission} {c c' : Connection} {e e' : Emission}
  {w w' : Wire} {place place' : Location}

/-- Connections into one block that are read as the same expression have the same place. -/
theorem IsReadBy.place_eq (r : IsReadBy o d plans es c e w place)
    (r' : IsReadBy o d plans es c' e' w' place')
    (target : c.targetBlockId = c'.targetBlockId) (expr : w.expr = w'.expr) : place = place' := by
  have found := r.found
  rw [← r.target, target, r'.target, Wire.location?, expr] at found
  exact Option.some.inj (found.symm.trans r'.found)

namespace Compiles

/-- A connection that is read has its only place where a wire of it is found. -/
theorem exists_isReadBy (h : Compiles o catalog d compiled plans es)
    (distinct : (d.connections.map (·.id)).Nodup) (listed : c ∈ d.connections)
    (read : d.IsRead c) : ∃ e w place, IsReadBy o d plans es c e w place
      ∧ compiled.sourceMap.connectionLocations c.id = [place] := by
  obtain ⟨⟨id, place⟩, mem, rfl⟩ := List.mem_map.mp (h.mem_readPlaces read)
  obtain ⟨e, known, marked⟩ := List.mem_flatMap.mp mem
  obtain ⟨w, reads, same, found⟩ := exists_of_mem_readMarks marked
  obtain ⟨c', listed', id', target, -, joins⟩ := h.exists_connection known reads
  obtain rfl : c' = c := List.inj_on_of_nodup_map distinct listed' listed (id'.trans same)
  exact ⟨e, w, place, ⟨listed, known, target, reads, joins, found⟩,
    h.connectionLocations_eq_singleton distinct (List.mem_append_left _ mem)⟩

/-- The output that a wire reads is planned for another block than the one that reads it. -/
theorem isSourceOf (h : Compiles o catalog d compiled plans es) (listed : c ∈ d.connections)
    (known : e ∈ es) (target : c.targetBlockId = e.blockId) {port : InputPort}
    {output : OutputField} (joins : w.Joins plans e.plan.block c port output) :
    IsSourceOf plans c e.plan output := by
  have here : e.blockId ∈ d.blockIds := h.arranged.perm.mem_iff.mp (List.mem_map_of_mem known)
  have canvas : d.blocks ≠ [] := by
    rintro none
    simp [Definition.blockIds, none] at here
  obtain ⟨source, -, _, -, p, mem, sourceId, portId, block, given, id, -⟩ :=
    startsFrom_of_outputField? (planned_of_plan h.planned).1 h.sound listed canvas
      joins.output_found
  have field : output.field ∈ p.fields := List.mem_append_right _ (List.mem_map_of_mem given)
  refine ⟨id.trans portId, ⟨p, mem, given⟩,
    (isNamed_of_planBlocks h.planned p mem).fields _ field, fun own => ?_⟩
  -- a block that reads a field of its own would feed itself
  obtain rfl := plan_eq_of_mem_fields (nodup_fields_of_planBlocks h.planned) mem
    (h.arranged.emits e known).1 field own
  have itself : c.sourceBlockId = e.blockId := by
    rw [← sourceId, ← block]
    rfl
  exact h.sound.not_feeds_self here ⟨c, listed, itself, target⟩

/-- Fields of one name are the same, and so are the outputs that they belong to. -/
theorem output_eq (h : Compiles o catalog d compiled plans es) {p q : BlockPlan}
    {output output' : OutputField} (source : IsSourceOf plans c p output)
    (source' : IsSourceOf plans c' q output') (same : output.field = output'.field) :
    output = output' ∧ c.sourceOutputId = c'.sourceOutputId := by
  obtain ⟨r, hr, given⟩ := source.planned
  obtain ⟨r', hr', given'⟩ := source'.planned
  obtain rfl := output_eq_of_field_eq (nodup_fields_of_planBlocks h.planned) hr hr' given given'
    same
  exact ⟨rfl, source.portId.symm.trans source'.portId⟩

/-- A connection is read as the expression of its wire. -/
theorem readsAs_iff (h : Compiles o catalog d compiled plans es)
    (r : IsReadBy o d plans es c e w place) {expr : String} :
    ReadsAs d plans c expr ↔ expr = w.expr := by
  obtain ⟨port, output, joins⟩ := r.joins
  have block : d.block? c.targetBlockId = some e.plan.block := r.target ▸ h.block?_eq r.known
  constructor
  · rintro ⟨b, port', output', found, input, field, converted⟩
    obtain rfl := Option.some.inj (block.symm.trans found)
    obtain rfl := Option.some.inj (joins.input_found.symm.trans input)
    obtain rfl := Option.some.inj (joins.output_found.symm.trans field)
    exact Option.some.inj (converted.symm.trans joins.converted)
  · rintro rfl
    exact ⟨_, port, output, block, joins.input_found, joins.output_found, joins.converted⟩

/-- A connection is found in a statement of its target. -/
theorem exists_line (h : Compiles o catalog d compiled plans es)
    (r : IsReadBy o d plans es c e w place) : ∃ m l k,
      (m, l) ∈ (o.program d es).markedLines o.indent ∧ m.blockId = c.targetBlockId
      ∧ l.text ∈ e.update.map (·.text) ∧ place = ⟨l.number, l.column + k, .update⟩
      ∧ BeginsWhole w.expr.toList (l.text.toList.drop k) := by
  obtain ⟨l, line, k, whole, rfl⟩ := Wire.exists_line_of_location? r.found
  obtain ⟨m, written, own⟩ := Program.exists_of_mem_statementLines h.tidy line
  refine ⟨m, l, k, (List.mem_filter.mp written).1, own.trans r.target.symm, ?_, rfl,
    beginsWhole_of_wholeOffset? whole⟩
  rw [← Program.map_text_statementLines h.tidy
    (h.arranged.perm.nodup_iff.mpr h.sound.distinct.1) r.known]
  exact List.mem_map_of_mem line

/-- Connections with the same place lead from the same output into the same block, and are read as
the same expression. -/
theorem eq_of_place (h : Compiles o catalog d compiled plans es)
    (r : IsReadBy o d plans es c e w place) (r' : IsReadBy o d plans es c' e' w' place')
    (line : place.line = place'.line) (column : place.column = place'.column) :
    c.targetBlockId = c'.targetBlockId ∧ c.sourceOutputId = c'.sourceOutputId
      ∧ w.expr = w'.expr := by
  obtain ⟨m, l, k, marked, own, -, rfl, whole⟩ := h.exists_line r
  obtain ⟨m', l', k', marked', own', -, rfl, whole'⟩ := h.exists_line r'
  obtain ⟨rfl, rfl⟩ := Program.eq_of_number_eq marked marked' line
  obtain rfl : k = k' := Nat.add_left_cancel column
  obtain ⟨port, output, joins⟩ := r.joins
  obtain ⟨port', output', joins'⟩ := r'.joins
  have source := h.isSourceOf r.listed r.known r.target joins
  have source' := h.isSourceOf r'.listed r'.known r'.target joins'
  obtain ⟨_, name⟩ := source.named.exists_letter
  obtain ⟨_, name'⟩ := source'.named.exists_letter
  obtain ⟨field, expr⟩ := eq_of_beginsWhole name name' joins.converted joins'.converted whole whole'
  obtain ⟨rfl, outputId⟩ := h.output_eq source source' field
  exact ⟨own.symm.trans own', outputId, expr rfl⟩

section

variable (h : Compiles o catalog d compiled plans es) (r : IsReadBy o d plans es c e w place)
  (alone : d.ReadsAlone c)

include h r alone

/-- If no other connection brings the output to the block, only the wire of the connection names the
field. -/
theorem eq_of_mem_names {port : InputPort} {output : OutputField}
    (joins : w.Joins plans e.plan.block c port output) (reads : w' ∈ e.reads)
    (named : output.field.toList ∈ names w'.expr.toList) :
    w'.expr = w.expr ∧ e.plan.block.arrival? c = some w'.slug := by
  obtain ⟨c', listed, -, target, read, port', output', joins'⟩ := h.exists_connection r.known reads
  have source := h.isSourceOf r.listed r.known r.target joins
  have source' := h.isSourceOf listed r.known target joins'
  obtain ⟨_, name'⟩ := source'.named.exists_letter
  rw [names_of_convert? name' joins'.converted, List.mem_singleton, String.toList_inj] at named
  obtain ⟨rfl, outputId⟩ := h.output_eq source' source named.symm
  obtain rfl := alone c' listed read (target.trans r.target.symm) outputId
  obtain rfl := Option.some.inj (joins'.input_found.symm.trans joins.input_found)
  exact ⟨Option.some.inj (joins'.converted.symm.trans joins.converted), joins'.arrival?⟩

/-- If no other connection brings the output to the block, the expression stands whole in a line of
the block only where the line has the input at which the connection arrives, unless it stands in the
id of the block. -/
theorem exists_input (unquoted : wholeOffset? w.expr.toList (quote c.targetBlockId).toList = none)
    {v : BlockView} (view : v.Emits plans e.plan e) {s : Stroke (List Piece)} {pieces : List Piece}
    (ruled : s ∈ (Rule.ofType e.plan.type).update) (text : s.text? = some pieces) {k : Nat}
    (whole : BeginsWhole w.expr.toList ((v.line pieces).toList.drop k)) :
    ∃ front piece back name, pieces = front ++ piece :: back ∧ piece.input? = some name
      ∧ v.plan.block.arrival? c = some (slug name) ∧ k = (v.line front).length := by
  obtain ⟨port, output, joins⟩ := r.joins
  have source := h.isSourceOf r.listed r.known r.target joins
  obtain ⟨pre, post, chars, encloses⟩ := exists_encloses joins.converted
  obtain ⟨_, name⟩ := source.named.exists_letter
  have tidy := view.isTidy_view (isNamed_of_planBlocks h.planned) (h.arranged.emits e r.known).1
  have spaced :=
    (BlockView.isClosed_given (h.isKnown r.known view) (Rule.isSpaced_ofType _) ruled text).1
  have id : v.plan.block.id = c.targetBlockId := by
    rw [view.plan, r.target]
    rfl
  obtain ⟨front, piece, back, asked, slot, w', rfl, input, found, wired, before, behind, parts,
      ended, new, fits⟩ :=
    BlockView.exists_input_of_beginsWhole tidy (view.plan ▸ source.foreign) source.named spaced
      (Rule.isNameless_ofType _ s ruled _ text) encloses chars (id ▸ unquoted) whole
  have reads : w' ∈ e.reads := by
    have asks := Rule.reads_of_mem ruled text (by simp) (Piece.mem_members_of_input? input)
    rw [view.emission, BlockView.reads_eq, List.mem_filterMap]
    refine ⟨asked, Rule.mem_inputs_iff.mpr asks, ?_⟩
    rw [BlockView.wireOf?, found]
    exact wired
  have around := names_around name.isWord name.isName ended new
  obtain ⟨expr, arrived⟩ := h.eq_of_mem_names r alone joins reads (by
    rw [parts, around]
    simp)
  -- the field is the first name in the expression, wherever the expression stands
  have first : names before = [] := by
    rw [← parts, expr, names_of_convert? name joins.converted] at around
    exact (List.append_eq_singleton_iff.mp around.symm).resolve_right (by simp) |>.1
  rw [expr, chars] at parts
  obtain rfl : pre = before := eq_of_names_eq_nil name.isWord name.isName (.inr encloses.ends) ended
    encloses.nameless.1 first encloses.new new parts
  refine ⟨front, piece, back, asked, rfl, input, ?_, ?_⟩
  · rw [view.plan, arrived, BlockView.slug_of_source found wired]
  · -- nothing begins behind the end of the line
    have inside : k ≤ (v.line (front ++ piece :: back)).toList.length := by
      by_contra beyond
      obtain ⟨rest, none, -⟩ := whole
      rw [List.drop_of_length_le (by omega), chars, List.append_assoc, List.append_assoc] at none
      have ends := encloses.ends
      rw [(List.append_eq_nil_iff.mp none.symm).1] at ends
      contradiction
    rw [← String.length_toList, ← List.append_cancel_right fits, List.length_take_of_le inside]

/-- The place of such a connection is the input at which it arrives. -/
theorem isReadOf (unquoted : wholeOffset? w.expr.toList (quote c.targetBlockId).toList = none) :
    place.IsReadOf compiled.code d plans c := by
  obtain ⟨m, l, k, marked, -, text, rfl, whole⟩ := h.exists_line r
  obtain ⟨known, ws, wired, emitted⟩ := h.arranged.emits e r.known
  have view := emits_view (planned_of_plan h.planned).1 h.sound known wired emitted
  have id : e.plan.block.id = c.targetBlockId := r.target.symm
  rw [view.emission, BlockView.map_text_update] at text
  obtain ⟨s, ruled, same⟩ := List.mem_map.mp text
  have written := List.all_eq_true.mp (Bool.and_eq_true_iff.mp (Rule.isTidy_ofType _)).2 s ruled
  obtain ⟨pieces, given, -⟩ := (Option.any_eq_true ..).mp written
  rw [given, Option.map_some, Option.getD_some] at same
  rw [← same] at whole
  obtain ⟨front, piece, back, name, rfl, input, arrived, rfl⟩ :=
    h.exists_input r alone unquoted view ruled given whole
  obtain ⟨counted, here⟩ :=
    Program.getElem?_linesOf_text h.tidy (Program.mem_lines_of_mem_markedLines marked)
  refine ⟨⟨e.plan, ws⟩, known, id, id ▸ wired, s, ruled, front, piece, back, name, given, input,
    arrived, l.indent, counted, ?_, ?_⟩
  · rw [h.code_eq, here, LaidLine.chars, same]
  · show l.indent + 1 + _ = l.indent + _ + 1
    omega

end

end Compiles

end

/-- Connections of a compiled strategy that are read, if ids of connections are distinct, have the
same place exactly if they lead from the same output into the same block and are read as the same
expression. Two connections that start at different outputs are therefore told apart by their
places. If no other connection brings the output to the block, the place is where the value of the
connection is read, unless the id of the block has the expression in it. -/
theorem places_of_reads {o : Options} {catalog : Catalog} {d : Definition} {compiled : Compiled}
    (distinct : (d.connections.map (·.id)).Nodup) (h : compile o catalog d = .ok compiled) :
    ∃ plans, plan catalog d = .ok plans
      ∧ (∀ c ∈ d.connections, d.IsRead c → ∃ place expr,
        compiled.sourceMap.connectionLocations c.id = [place] ∧ ReadsAs d plans c expr
        ∧ (d.ReadsAlone c → wholeOffset? expr.toList (quote c.targetBlockId).toList = none →
          place.IsReadOf compiled.code d plans c))
      ∧ ∀ c ∈ d.connections, ∀ c' ∈ d.connections, d.IsRead c → d.IsRead c' →
        ∀ place ∈ compiled.sourceMap.connectionLocations c.id,
        ∀ place' ∈ compiled.sourceMap.connectionLocations c'.id,
          (place.line = place'.line ∧ place.column = place'.column
            ↔ c.targetBlockId = c'.targetBlockId ∧ c.sourceOutputId = c'.sourceOutputId
              ∧ ∃ expr, ReadsAs d plans c expr ∧ ReadsAs d plans c' expr) := by
  obtain ⟨plans, es, comp⟩ := exists_compiles h
  refine ⟨plans, comp.planned, fun c listed read => ?_, fun c listed c' listed' read read' => ?_⟩
  · obtain ⟨e, w, place, r, only⟩ := comp.exists_isReadBy distinct listed read
    exact ⟨place, w.expr, only, (comp.readsAs_iff r).mpr rfl, comp.isReadOf r⟩
  · obtain ⟨e, w, place, r, only⟩ := comp.exists_isReadBy distinct listed read
    obtain ⟨e', w', place', r', only'⟩ := comp.exists_isReadBy distinct listed' read'
    rw [only, only']
    simp only [List.mem_singleton, forall_eq, comp.readsAs_iff r, comp.readsAs_iff r',
      exists_eq_left]
    constructor
    · rintro ⟨line, column⟩
      exact comp.eq_of_place r r' line column
    · rintro ⟨target, -, expr⟩
      rw [r.place_eq r' target expr]
      exact ⟨rfl, rfl⟩

/-! ## A crossover -/

/-- A block that compares two numbers over time. -/
def crossBlock : Block where
  id := "cross"
  type := "crossover"
  category := .logic
  name := "Cross"
  description := ""
  position := .origin
  size := .usual
  inputs := [⟨"cross:in:fast", "Fast", .number, true⟩, ⟨"cross:in:slow", "Slow", .number, true⟩]
  outputs := [⟨"cross:out:signal", "Signal", .signal⟩]
  properties := [⟨"direction", "Direction", .string, some (.text "above"), true, none, none, []⟩]

/-- A strategy that raises an alert when the price crosses an output of the market data. -/
def crossAlert (slow : String) : Definition :=
  { priceLog with
    blocks := priceLog.blocks.drop 1 ++ [crossBlock,
      { id := "alert"
        type := "alert"
        category := .output
        name := "Alert"
        description := ""
        position := .origin
        size := .usual
        inputs := [⟨"alert:in:trigger", "Trigger", .boolean, true⟩]
        outputs := []
        properties := [
          ⟨"message", "Message", .string, some (.text "crossed"), true, none, none, []⟩] }]
    connections := [
      ⟨"fast", "feed", "feed:out:price", "cross", "cross:in:fast", .number⟩,
      ⟨"slow", "feed", slow, "cross", "cross:in:slow", .number⟩,
      ⟨"fire", "cross", "cross:out:signal", "alert", "alert:in:trigger", .signal⟩] }

/-- The crossover reads both numbers. -/
theorem isRead_crossAlert (slow : String) {c : Connection} (mem : c ∈ (crossAlert slow).connections)
    (target : c.targetBlockId = "cross") : (crossAlert slow).IsRead c := by
  have targets : ((crossAlert slow).connections.map (·.targetInputId)).Nodup := by
    simp [crossAlert]
  have known : crossBlock ∈ (crossAlert slow).blocks := by
    simp [crossAlert]
  have inputs : c.targetInputId = "cross:in:fast" ∨ c.targetInputId = "cross:in:slow" := by
    simp only [crossAlert, List.mem_cons, List.not_mem_nil, or_false] at mem
    rcases mem with rfl | rfl | rfl
    · exact .inl rfl
    · exact .inr rfl
    · contradiction
  have arrived : ∃ name, (Rule.ofType .crossover).Reads (.input name)
      ∧ crossBlock.arrival? c = some (slug name) := by
    unfold Block.arrival?
    rcases inputs with input | input
    · exact ⟨"Fast", .inr (by decide), by rw [input]; decide +kernel⟩
    · exact ⟨"Slow", .inr (by decide), by rw [input]; decide +kernel⟩
  obtain ⟨name, reads, arrived⟩ := arrived
  exact Definition.isRead_of_nodup_targetInputId targets mem known target.symm (by decide +kernel)
    rfl reads arrived

/-- A price and a volume that are compared are read at different places. -/
theorem places_crossAlert_volume : ∃ compiled place place',
    compile .default ⟨[]⟩ (crossAlert "feed:out:volume") = .ok compiled
    ∧ compiled.sourceMap.connectionLocations "fast" = [place]
    ∧ compiled.sourceMap.connectionLocations "slow" = [place']
    ∧ ¬ (place.line = place'.line ∧ place.column = place'.column) := by
  obtain ⟨compiled, h⟩ : ∃ compiled,
      compile .default ⟨[]⟩ (crossAlert "feed:out:volume") = .ok compiled :=
    exists_of_isSome_toOption (by decide +kernel)
  obtain ⟨plans, -, places, same⟩ := places_of_reads (by decide) h
  have fast : ⟨"fast", "feed", "feed:out:price", "cross", "cross:in:fast", .number⟩
      ∈ (crossAlert "feed:out:volume").connections := List.mem_cons_self
  have slow : ⟨"slow", "feed", "feed:out:volume", "cross", "cross:in:slow", .number⟩
      ∈ (crossAlert "feed:out:volume").connections :=
    List.mem_cons_of_mem _ List.mem_cons_self
  have read := isRead_crossAlert "feed:out:volume" fast rfl
  have read' := isRead_crossAlert "feed:out:volume" slow rfl
  obtain ⟨place, -, only, -⟩ := places _ fast read
  obtain ⟨place', -, only', -⟩ := places _ slow read'
  refine ⟨compiled, place, place', h, only, only', fun here => ?_⟩
  -- the outputs are different
  obtain ⟨-, output, -⟩ := (same _ fast _ slow read read' place (by rw [only]; simp) place'
    (by rw [only']; simp)).mp here
  contradiction

/-- If the crossover reads one output twice, both connections have the place of the first. -/
theorem places_crossAlert_price : ∃ compiled place,
    compile .default ⟨[]⟩ (crossAlert "feed:out:price") = .ok compiled
    ∧ ((crossAlert "feed:out:price").connections.map (·.id)).Nodup
    ∧ ∃ c ∈ (crossAlert "feed:out:price").connections,
      ∃ c' ∈ (crossAlert "feed:out:price").connections,
        c ≠ c' ∧ (crossAlert "feed:out:price").IsRead c
        ∧ (crossAlert "feed:out:price").IsRead c'
        ∧ compiled.sourceMap.connectionLocations c.id = [place]
        ∧ compiled.sourceMap.connectionLocations c'.id = [place] := by
  obtain ⟨compiled, h⟩ : ∃ compiled,
      compile .default ⟨[]⟩ (crossAlert "feed:out:price") = .ok compiled :=
    exists_of_isSome_toOption (by decide +kernel)
  have connections : (compile .default ⟨[]⟩ (crossAlert "feed:out:price")).toOption.map
      (·.sourceMap.connections) = some [("fast", [⟨47, 51, .update⟩]),
        ("fire", [⟨50, 25, .update⟩]), ("slow", [⟨47, 51, .update⟩])] := by
    decide +kernel
  rw [h] at connections
  have listed : compiled.sourceMap.connections = _ := Option.some.inj connections
  have fast : ⟨"fast", "feed", "feed:out:price", "cross", "cross:in:fast", .number⟩
      ∈ (crossAlert "feed:out:price").connections := List.mem_cons_self
  have slow : ⟨"slow", "feed", "feed:out:price", "cross", "cross:in:slow", .number⟩
      ∈ (crossAlert "feed:out:price").connections :=
    List.mem_cons_of_mem _ List.mem_cons_self
  refine ⟨compiled, ⟨47, 51, .update⟩, h, by decide, _, fast, _, slow, by decide,
    isRead_crossAlert _ fast rfl, isRead_crossAlert _ slow rfl, ?_, ?_⟩
  · rw [SourceMap.connectionLocations, listed]
    rfl
  · rw [SourceMap.connectionLocations, listed]
    rfl

end Code

end StrategyCanvas
