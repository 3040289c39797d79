import StrategyCanvas.Proofs.Code.BlockLocations
import StrategyCanvas.Proofs.Code.Reading

/-!
# Where connections are found in code

A connection that is read is found where its expression stands in the update of its target; any
other one is anchored at the first line of that update. The two kinds of marks have different ids
(`Compiles.nodup_places`) and together all ids of connections (`Compiles.exists_place`).
-/

namespace StrategyCanvas.Code

open Text

/-! ## Places of wires -/

namespace Wire

variable {w : Wire} {lines : List LaidLine} {place : Location}

/-- A place of a wire is a whole occurrence of its expression in one of the lines. -/
theorem exists_line_of_location? (h : w.location? lines = some place) :
    ∃ l ∈ lines, ∃ k, wholeOffset? w.expr.toList l.text.toList = some k
      ∧ place = ⟨l.number, l.column + k, .update⟩ := by
  obtain ⟨l, mem, here⟩ := List.exists_of_findSome?_eq_some h
  obtain ⟨k, found, rfl⟩ := Option.map_eq_some_iff.mp here
  exact ⟨l, mem, k, found, rfl⟩

theorem exists_location? (h : ∃ l ∈ lines, ∃ k, wholeOffset? w.expr.toList l.text.toList = some k) :
    ∃ place, w.location? lines = some place := by
  obtain ⟨l, mem, k, found⟩ := h
  rw [← Option.isSome_iff_exists, location?, List.findSome?_isSome_iff]
  exact ⟨l, mem, by simp [found]⟩

end Wire

/-- Every place that a block has for its reads is that of a wire that it reads. -/
theorem exists_of_mem_readMarks {marked : List (Mark × LaidLine)} {e : Emission} {id : String}
    {place : Location} (h : (id, place) ∈ readMarks marked e) : ∃ w ∈ e.reads,
      w.connectionId = id ∧ w.location? (statementLines marked e.blockId) = some place := by
  obtain ⟨w, read, mark⟩ := List.mem_filterMap.mp h
  obtain ⟨_, found, same⟩ := Option.map_eq_some_iff.mp mark
  obtain ⟨rfl, rfl⟩ := Prod.mk.inj same
  exact ⟨w, read, rfl, found⟩

/-! ## Anchors -/

/-- What stands for a connection is the first line of the update of its target, if it has one. -/
theorem anchor?_of_update {locations : List Location}
    (updated : ∃ l ∈ locations, l.part = .update) :
    ∃ first, locations.find? (·.part = .update) = some first
      ∧ anchor? locations = some { first with column := 1 } := by
  have found : (locations.find? (·.part = .update)).isSome := by
    rw [List.find?_isSome]
    simpa using updated
  obtain ⟨first, found⟩ := Option.isSome_iff_exists.mp found
  refine ⟨first, found, ?_⟩
  rw [anchor?, found]
  rfl

section Anchors

variable {locations : String → List Location} {known : List String}
  {connections : List Connection}

theorem exists_of_mem_anchorMarks {x : String × Location}
    (h : x ∈ anchorMarks locations known connections) : ∃ c ∈ connections, c.id = x.1
      ∧ anchor? (locations c.targetBlockId) = some x.2 := by
  induction connections generalizing known with
  | nil => contradiction
  | cons c rest ih =>
    have later {known : List String} (mem : x ∈ anchorMarks locations known rest) :
        ∃ c' ∈ c :: rest, c'.id = x.1 ∧ anchor? (locations c'.targetBlockId) = some x.2 := by
      obtain ⟨c', listed, found⟩ := ih mem
      exact ⟨c', List.mem_cons_of_mem _ listed, found⟩
    unfold anchorMarks at h
    split at h
    · exact later h
    · split at h
      · rename_i l anchored
        rcases List.mem_cons.mp h with rfl | mem
        · exact ⟨c, List.mem_cons_self, rfl, anchored⟩
        · exact later mem
      · exact later h

/-- Anchors have ids that differ from each other and from those that are known. -/
theorem nodup_anchorMarks : ((anchorMarks locations known connections).map (·.1)).Nodup
    ∧ ∀ id ∈ (anchorMarks locations known connections).map (·.1), id ∉ known := by
  induction connections generalizing known with
  | nil => simp [anchorMarks]
  | cons c rest ih =>
    unfold anchorMarks
    split
    · exact ih
    · rename_i new
      split
      · obtain ⟨distinct, fresh⟩ := @ih (c.id :: known)
        rw [List.map_cons, List.nodup_cons, List.forall_mem_cons]
        refine ⟨⟨fun mem => fresh _ mem List.mem_cons_self, distinct⟩, new, fun id mem old => ?_⟩
        exact fresh id mem (List.mem_cons_of_mem _ old)
      · exact ih

/-- If every target has an anchor, no connection is left out. -/
theorem mem_anchorMarks
    (anchored : ∀ c ∈ connections, ∃ l, anchor? (locations c.targetBlockId) = some l)
    {c : Connection} (mem : c ∈ connections) :
    c.id ∈ known ∨ c.id ∈ (anchorMarks locations known connections).map (·.1) := by
  induction connections generalizing known with
  | nil => contradiction
  | cons first rest ih =>
    obtain ⟨⟨l, here⟩, others⟩ := List.forall_mem_cons.mp anchored
    unfold anchorMarks
    rw [here]
    split
    · rename_i old
      rcases List.mem_cons.mp mem with rfl | mem
      · exact .inl old
      · exact ih others mem
    · rw [List.map_cons, List.mem_cons]
      rcases List.mem_cons.mp mem with rfl | mem
      · exact .inr (.inl rfl)
      · rcases @ih (first.id :: known) others mem with old | listed
        · rcases List.mem_cons.mp old with same | old
          · exact .inr (.inl same)
          · exact .inl old
        · exact .inr (.inr listed)

end Anchors

/-! ## Statements -/

/-- Whether a mark is that of a statement of a block. -/
def Mark.isStatementOf (m : Mark) (id : String) : Bool := m.isStatement && m.blockId = id

/-- The statements of a block are all that it writes of itself, and nothing of another block is. -/
theorem Emission.filter_updateTexts (e : Emission) (id : String) :
    (e.updateTexts.filter fun x => x.1.isStatementOf id).map (·.2)
      = if e.blockId = id then e.update.map (·.text) else [] := by
  rw [updateTexts, List.filter_cons_of_neg (by simp [Mark.isStatementOf]), List.filter_map,
    List.map_map]
  split
  · rename_i own
    rw [List.filter_eq_self.mpr fun s _ => by simp [Mark.isStatementOf, own]]
    rfl
  · rename_i other
    rw [List.filter_eq_nil_iff.mpr fun s _ => by simp [Mark.isStatementOf, other]]
    rfl

namespace Program

variable {p : Program} {unit : Nat} {connections : List Connection} {ids : List String}
  {e : Emission} {l : LaidLine} {id : String}

theorem statementLines_eq (tidy : ∀ entry ∈ p.entries, entry.IsTidy ids) :
    statementLines (p.markedLines unit) id
      = ((p.updateLines unit).filter fun x => x.1.isStatementOf id).map (·.2) := by
  have own : ((p.markedLines unit).filter fun x => x.1.isStatementOf id)
      = (p.updateLines unit).filter fun x => x.1.isStatementOf id := by
    rw [updateLines, List.filter_filter]
    refine List.filter_congr fun x mem => ?_
    have update := (isTidy_of_mem_markedLines tidy mem).1.statement
    cases statement : x.1.isStatement with
    | false => simp [Mark.isStatementOf, statement]
    | true => simp [update statement]
  rw [← own]
  rfl

/-- The lines with the statements of a block have the texts that were emitted for it. -/
theorem map_text_statementLines (tidy : ∀ entry ∈ p.entries, entry.IsTidy ids)
    (distinct : (p.blocks.map (·.blockId)).Nodup) (h : e ∈ p.blocks) :
    (statementLines (p.markedLines unit) e.blockId).map (·.text) = e.update.map (·.text) := by
  calc (statementLines (p.markedLines unit) e.blockId).map (·.text)
      = (((p.updateLines unit).map fun x => (x.1, x.2.text)).filter
          fun x => x.1.isStatementOf e.blockId).map (·.2) := by
        rw [statementLines_eq tidy, List.filter_map, List.map_map, List.map_map]
        rfl
    _ = p.blocks.flatMap fun b =>
          (b.updateTexts.filter fun x => x.1.isStatementOf e.blockId).map (·.2) := by
        rw [map_updateLines, List.filter_flatMap, List.map_flatMap]
    _ = (e.updateTexts.filter fun x => x.1.isStatementOf e.blockId).map (·.2) := by
        refine flatMap_eq_of_key distinct h fun b other => ?_
        rw [b.filter_updateTexts, if_neg other]
    _ = e.update.map (·.text) := by
        rw [e.filter_updateTexts, if_pos rfl]

theorem exists_of_mem_statementLines (tidy : ∀ entry ∈ p.entries, entry.IsTidy ids)
    (h : l ∈ statementLines (p.markedLines unit) id) :
    ∃ m, (m, l) ∈ p.updateLines unit ∧ m.blockId = id := by
  rw [statementLines_eq tidy] at h
  obtain ⟨⟨m, l⟩, mem, rfl⟩ := List.mem_map.mp h
  obtain ⟨written, statement⟩ := List.mem_filter.mp mem
  exact ⟨m, written, of_decide_eq_true (Bool.and_eq_true_iff.mp statement).2⟩

/-! ## Marks of connections -/

/-- The places at which blocks read connections. -/
def readPlaces (p : Program) (unit : Nat) : List (String × Location) :=
  p.blocks.flatMap (readMarks (p.markedLines unit))

/-- The places that stand for connections that no block reads. -/
def anchorPlaces (p : Program) (unit : Nat) (connections : List Connection) :
    List (String × Location) :=
  anchorMarks (fun id => (p.sourceMap unit connections).blockLocations id)
    ((p.readPlaces unit).map (·.1)) connections

/-- All places of connections. -/
def connectionPlaces (p : Program) (unit : Nat) (connections : List Connection) :
    List (String × Location) :=
  p.readPlaces unit ++ p.anchorPlaces unit connections

theorem connections_sourceMap (p : Program) (unit : Nat) (connections : List Connection) :
    (p.sourceMap unit connections).connections
      = SourceMap.group (p.connectionPlaces unit connections) := by
  simp only [connectionPlaces, anchorPlaces, readPlaces, sourceMap, SourceMap.blockLocations]

end Program

/-! ## Places of connections -/

/-- A place on a line of the update of a block. -/
def SourceMap.InUpdate (m : SourceMap) (blockId : String) (l : Location) : Prop :=
  l.part = .update ∧ ∃ t ∈ m.blockLocations blockId, t.part = .update ∧ t.line = l.line

/-- A place from which on a line of code reads as an expression, which stands there whole. -/
def Location.Shows (l : Location) (code expr : String) : Prop :=
  ∃ chars, 1 ≤ l.line ∧ (linesOf code)[l.line - 1]? = some chars
    ∧ 1 ≤ l.column ∧ BeginsWhole expr.toList (chars.drop (l.column - 1))

/-- The expression by which a connection is read: the field of its output, converted to the kind of
the port at which it ends. -/
def ReadsAs (d : Definition) (plans : List BlockPlan) (c : Connection) (expr : String) : Prop :=
  ∃ b port output, d.block? c.targetBlockId = some b ∧ b.input? c.targetInputId = some port
    ∧ outputField? plans c.sourceOutputId = some output
    ∧ convert? output.field output.kind port.dataKind = some expr

namespace Compiles

variable {o : Options} {catalog : Catalog} {d : Definition} {compiled : Compiled}
  {plans : List BlockPlan} {es : List Emission} {e : Emission} {c : Connection} {id : String}
  {place : Location}

/-- A wire that a block reads belongs to a connection into the block that is read. -/
theorem exists_connection (h : Compiles o catalog d compiled plans es) (known : e ∈ es) {w : Wire}
    (mem : w ∈ e.reads) : ∃ c ∈ d.connections, c.id = w.connectionId ∧ c.targetBlockId = e.blockId
      ∧ d.IsRead c ∧ ∃ port output, w.Joins plans e.plan.block c port output := by
  obtain ⟨planned, emits⟩ := h.arranged.emits e known
  obtain ⟨c, into, read, port, output, joins⟩ :=
    emits.exists_connection (planned_of_plan h.planned).1 h.sound planned mem
  obtain ⟨listed, target⟩ := List.mem_filter.mp into
  exact ⟨c, listed, joins.id.symm, of_decide_eq_true target, read, port, output, joins⟩

theorem block?_eq (h : Compiles o catalog d compiled plans es) (known : e ∈ es) :
    d.block? e.blockId = some e.plan.block := by
  obtain ⟨b, listed, isFor⟩ :=
    (planned_of_plan h.planned).1.exists_isFor e.plan (h.arranged.emits e known).1
  rw [Definition.block?, find?_key_eq_some_iff h.sound.distinct.1]
  exact ⟨isFor.block ▸ listed, rfl⟩

/-- What is recorded of the reads of a block is a connection into the block and the place where its
expression stands. -/
theorem exists_of_mem_readPlaces (h : Compiles o catalog d compiled plans es)
    (mem : (id, place) ∈ (o.program d es).readPlaces o.indent) :
    ∃ c ∈ d.connections, c.id = id ∧ d.IsRead c
      ∧ compiled.sourceMap.InUpdate c.targetBlockId place
      ∧ ∃ expr, ReadsAs d plans c expr ∧ place.Shows compiled.code expr := by
  obtain ⟨e, known, mem⟩ := List.mem_flatMap.mp mem
  obtain ⟨w, read, rfl, found⟩ := exists_of_mem_readMarks mem
  obtain ⟨c, listed, sameId, target, isRead, port, output, joins⟩ := h.exists_connection known read
  obtain ⟨l, line, k, whole, rfl⟩ := Wire.exists_line_of_location? found
  obtain ⟨m, written, own⟩ := Program.exists_of_mem_statementLines h.tidy line
  obtain ⟨listed', part⟩ :=
    Program.mem_blockLocations_of_mem_updateLines d.connections written
  refine ⟨c, listed, sameId, isRead, ⟨rfl, ?_⟩, w.expr, ?_, ?_⟩
  · rw [h.sourceMap_eq, target, ← own]
    exact ⟨m.location l, listed', part, rfl⟩
  · refine ⟨e.plan.block, port, output, ?_, joins.input_found, joins.output_found, joins.converted⟩
    rw [target]
    exact h.block?_eq known
  · obtain ⟨counted, here⟩ := Program.getElem?_linesOf_text h.tidy
      (Program.mem_lines_of_mem_markedLines (List.mem_filter.mp written).1)
    have column : l.column + k - 1 = l.indent + k := by
      rw [LaidLine.column]
      omega
    rw [h.code_eq]
    refine ⟨l.chars, counted, here, Nat.le_add_right_of_le (Nat.le_add_left 1 _), ?_⟩
    rw [column, l.drop_chars]
    exact beginsWhole_of_wholeOffset? whole

/-- A connection that is read has a place where it is read. -/
theorem mem_readPlaces (h : Compiles o catalog d compiled plans es) (read : d.IsRead c) :
    c.id ∈ ((o.program d es).readPlaces o.indent).map (·.1) := by
  have target : c.targetBlockId ∈ d.blockIds := by
    obtain ⟨b, listed, id, -⟩ := read
    rw [← id]
    exact List.mem_map_of_mem listed
  obtain ⟨e, known, into⟩ := List.mem_map.mp (h.arranged.perm.mem_iff.mpr target)
  obtain ⟨planned, emits⟩ := h.arranged.emits e known
  obtain ⟨w, reads, port, output, joins⟩ :=
    emits.exists_wire (planned_of_plan h.planned).1 h.sound planned read into.symm
  -- the statement in which the expression stands has a line
  obtain ⟨s, given, k, whole⟩ := emits.exists_statement reads
  have text : s.text ∈ (statementLines ((o.program d es).markedLines o.indent) e.blockId).map
      (·.text) := by
    rw [Program.map_text_statementLines h.tidy (h.arranged.perm.nodup_iff.mpr h.sound.distinct.1)
      known]
    exact List.mem_map_of_mem given
  obtain ⟨l, line, same⟩ := List.mem_map.mp text
  rw [← same] at whole
  obtain ⟨place, found⟩ := Wire.exists_location? ⟨l, line, k, whole⟩
  refine List.mem_map.mpr ⟨(w.connectionId, place), List.mem_flatMap.mpr ⟨e, known, ?_⟩, joins.id⟩
  exact List.mem_filterMap.mpr ⟨w, reads, by rw [found]; rfl⟩

/-- If ids of connections are distinct, wires with one id belong to one connection. -/
theorem exists_common_connection (h : Compiles o catalog d compiled plans es)
    (distinct : (d.connections.map (·.id)).Nodup) {e' : Emission} (known : e ∈ es)
    (known' : e' ∈ es) {w w' : Wire} (read : w ∈ e.reads) (read' : w' ∈ e'.reads)
    (same : w.connectionId = w'.connectionId) :
    ∃ c : Connection, (c.targetBlockId = e.blockId ∧ e.plan.block.arrival? c = some w.slug)
      ∧ c.targetBlockId = e'.blockId ∧ e'.plan.block.arrival? c = some w'.slug := by
  obtain ⟨c, listed, id, target, -, port, output, joins⟩ := h.exists_connection known read
  obtain ⟨c', listed', id', target', -, port', output', joins'⟩ := h.exists_connection known' read'
  obtain rfl : c = c' :=
    List.inj_on_of_nodup_map distinct listed listed' (id.trans (same.trans id'.symm))
  exact ⟨c, ⟨target, joins.arrival?⟩, target', joins'.arrival?⟩

/-- If ids of connections are distinct, none is read twice. -/
theorem nodup_readPlaces (h : Compiles o catalog d compiled plans es)
    (distinct : (d.connections.map (·.id)).Nodup) :
    (((o.program d es).readPlaces o.indent).map (·.1)).Nodup := by
  rw [Program.readPlaces, List.map_flatMap, List.nodup_flatMap]
  constructor
  · intro e known
    -- within a block, wires of one connection would belong to one input
    have slugs := (h.arranged.emits e known).2.nodup_reads
    rw [List.Nodup, List.pairwise_map] at slugs ⊢
    rw [readMarks, List.pairwise_filterMap]
    refine slugs.imp_of_mem fun {w w'} read read' different x hx x' hx' same => different ?_
    obtain ⟨_, -, rfl⟩ := Option.map_eq_some_iff.mp hx
    obtain ⟨_, -, rfl⟩ := Option.map_eq_some_iff.mp hx'
    obtain ⟨c, ⟨-, slug⟩, -, slug'⟩ :=
      h.exists_common_connection distinct known known read read' same
    exact Option.some.inj (slug.symm.trans slug')
  · -- a connection leads into one block only
    have blocks : es.Pairwise fun a b => a.blockId ≠ b.blockId :=
      List.pairwise_map.mp (h.arranged.perm.nodup_iff.mpr h.sound.distinct.1)
    refine blocks.imp_of_mem fun {e e'} known known' different id mem mem' => different ?_
    obtain ⟨⟨id, place⟩, marked, rfl⟩ := List.mem_map.mp mem
    obtain ⟨⟨id', place'⟩, marked', same⟩ := List.mem_map.mp mem'
    obtain ⟨w, read, own, -⟩ := exists_of_mem_readMarks marked
    obtain ⟨w', read', own', -⟩ := exists_of_mem_readMarks marked'
    obtain ⟨c, ⟨target, -⟩, target', -⟩ := h.exists_common_connection distinct known known' read
      read' (own.trans (same.symm.trans own'.symm))
    exact target.symm.trans target'

/-- What is recorded of other connections is the first line of the update of the target. -/
theorem exists_of_mem_anchorPlaces (h : Compiles o catalog d compiled plans es)
    (mem : (id, place) ∈ (o.program d es).anchorPlaces o.indent d.connections) :
    ∃ c ∈ d.connections, c.id = id ∧ compiled.sourceMap.InUpdate c.targetBlockId place
      ∧ ∃ first, (compiled.sourceMap.blockLocations c.targetBlockId).find? (·.part = .update)
          = some first ∧ place = { first with column := 1 } := by
  obtain ⟨c, listed, sameId, anchored⟩ := exists_of_mem_anchorMarks mem
  rw [← h.sourceMap_eq] at anchored
  have target : c.targetBlockId ∈ d.blockIds := by
    cases places : compiled.sourceMap.blockLocations c.targetBlockId with
    | nil =>
      rw [places] at anchored
      contradiction
    | cons l rest => exact h.mem_blockIds (l := l) (by simp [places])
  obtain ⟨first, found, made⟩ := anchor?_of_update (h.exists_update target)
  rw [made] at anchored
  obtain rfl := Option.some.inj anchored
  have part : first.part = .update := by simpa using List.find?_some found
  exact ⟨c, listed, sameId, ⟨part, first, List.mem_of_find?_eq_some found, part, rfl⟩, first, found,
    rfl⟩

/-- Every place of a connection is in the update of its target. -/
theorem exists_of_mem_places (h : Compiles o catalog d compiled plans es)
    (mem : (id, place) ∈ (o.program d es).connectionPlaces o.indent d.connections) :
    ∃ c ∈ d.connections, c.id = id ∧ compiled.sourceMap.InUpdate c.targetBlockId place := by
  rcases List.mem_append.mp mem with read | anchored
  · obtain ⟨c, listed, sameId, -, inside, -⟩ := h.exists_of_mem_readPlaces read
    exact ⟨c, listed, sameId, inside⟩
  · obtain ⟨c, listed, sameId, inside, -⟩ := h.exists_of_mem_anchorPlaces anchored
    exact ⟨c, listed, sameId, inside⟩

/-- Every connection of a strategy with blocks is read or anchored. -/
theorem exists_place (h : Compiles o catalog d compiled plans es) (some : d.blocks ≠ [])
    (mem : c ∈ d.connections) :
    ∃ place, (c.id, place) ∈ (o.program d es).connectionPlaces o.indent d.connections := by
  have anchored : ∀ c ∈ d.connections, ∃ l, anchor?
      (((o.program d es).sourceMap o.indent d.connections).blockLocations c.targetBlockId)
        = .some l := by
    intro c listed
    obtain ⟨first, -, made⟩ := anchor?_of_update (h.exists_update (h.sound.ends_mem some listed).2)
    rw [← h.sourceMap_eq, made]
    exact ⟨_, rfl⟩
  have listed : c.id ∈ ((o.program d es).connectionPlaces o.indent d.connections).map (·.1) := by
    rw [Program.connectionPlaces, List.map_append, List.mem_append]
    exact mem_anchorMarks anchored mem
  obtain ⟨⟨id, place⟩, mem, rfl⟩ := List.mem_map.mp listed
  exact ⟨place, mem⟩

/-- If ids of connections are distinct, none has two places. -/
theorem nodup_places (h : Compiles o catalog d compiled plans es)
    (distinct : (d.connections.map (·.id)).Nodup) :
    (((o.program d es).connectionPlaces o.indent d.connections).map (·.1)).Nodup := by
  have anchors : (((o.program d es).anchorPlaces o.indent d.connections).map (·.1)).Nodup
      ∧ ∀ id ∈ ((o.program d es).anchorPlaces o.indent d.connections).map (·.1),
        id ∉ ((o.program d es).readPlaces o.indent).map (·.1) := nodup_anchorMarks
  rw [Program.connectionPlaces, List.map_append, List.nodup_append']
  exact ⟨h.nodup_readPlaces distinct, anchors.1, fun id read anchored => anchors.2 id anchored read⟩

/-- Without blocks no connection has a place, as it would be in the update of a block. -/
theorem connections_eq_nil (h : Compiles o catalog d compiled plans es) (none : d.blocks = []) :
    compiled.sourceMap.connections = [] := by
  have nothing : (o.program d es).connectionPlaces o.indent d.connections = [] := by
    refine List.eq_nil_iff_forall_not_mem.mpr fun x mem => ?_
    obtain ⟨c, -, -, -, t, listed, -⟩ := h.exists_of_mem_places mem
    have block := h.mem_blockIds listed
    rw [Definition.blockIds, none] at block
    contradiction
  rw [h.sourceMap_eq, Program.connections_sourceMap, nothing]
  rfl

/-- With blocks every connection has an entry, and nothing else has one. -/
theorem map_fst_connections_perm (h : Compiles o catalog d compiled plans es)
    (some : d.blocks ≠ []) (distinct : (d.connections.map (·.id)).Nodup) :
    (compiled.sourceMap.connections.map (·.1)).Perm (d.connections.map (·.id)) := by
  rw [h.sourceMap_eq, Program.connections_sourceMap]
  refine SourceMap.map_fst_group_perm distinct fun id => ⟨fun listed => ?_, fun listed => ?_⟩
  · obtain ⟨⟨id, place⟩, mem, rfl⟩ := List.mem_map.mp listed
    obtain ⟨c, known, rfl, -⟩ := h.exists_of_mem_places mem
    exact List.mem_map_of_mem known
  · obtain ⟨c, known, rfl⟩ := List.mem_map.mp listed
    obtain ⟨place, mem⟩ := h.exists_place some known
    exact List.mem_map_of_mem mem

/-- A connection with an id of its own has one place. -/
theorem connectionLocations_eq_singleton (h : Compiles o catalog d compiled plans es)
    (distinct : (d.connections.map (·.id)).Nodup)
    (mem : (id, place) ∈ (o.program d es).connectionPlaces o.indent d.connections) :
    compiled.sourceMap.connectionLocations id = [place] := by
  have single := filter_key_eq_singleton (h.nodup_places distinct) mem
  rw [h.sourceMap_eq, SourceMap.connectionLocations, Program.connections_sourceMap,
    SourceMap.getD_lookup_group, single]
  rfl

end Compiles

/-- Connections of a compiled strategy with blocks, if their ids are distinct, have one place each.
It lies in the update of the target. If the connection is read there, the line goes on from this
place with the expression by which it is read, which stands there whole; if it is not, the place is
the beginning of the first line of the update. A strategy without blocks has no code in which a
connection could have a place, and nobody looks at its connections. -/
theorem connectionLocations_of_compile {o : Options} {catalog : Catalog} {d : Definition}
    {compiled : Compiled} (distinct : (d.connections.map (·.id)).Nodup)
    (h : compile o catalog d = .ok compiled) :
    (d.blocks = [] → compiled.sourceMap.connections = [])
    ∧ (d.blocks ≠ [] →
      (compiled.sourceMap.connections.map (·.1)).Perm (d.connections.map (·.id))
      ∧ ∀ c ∈ d.connections, ∃ place, compiled.sourceMap.connectionLocations c.id = [place]
        ∧ compiled.sourceMap.InUpdate c.targetBlockId place
        ∧ (d.IsRead c → ∃ plans expr, plan catalog d = .ok plans ∧ ReadsAs d plans c expr
          ∧ place.Shows compiled.code expr)
        ∧ (¬ d.IsRead c → ∃ first,
          (compiled.sourceMap.blockLocations c.targetBlockId).find? (·.part = .update) = some first
          ∧ place = { first with column := 1 })) := by
  obtain ⟨plans, es, comp⟩ := exists_compiles h
  refine ⟨comp.connections_eq_nil, fun some => ⟨comp.map_fst_connections_perm some distinct, ?_⟩⟩
  intro c mem
  obtain ⟨place, marked⟩ := comp.exists_place some mem
  have unique {c' : Connection} (known : c' ∈ d.connections) (same : c'.id = c.id) : c' = c :=
    List.inj_on_of_nodup_map distinct known mem same
  refine ⟨place, comp.connectionLocations_eq_singleton distinct marked, ?_⟩
  -- the place is that of a read or an anchor, and a connection does not have both
  rcases List.mem_append.mp marked with read | anchored
  · obtain ⟨c', known, same, isRead, inside, expr, readsAs, shows⟩ :=
      comp.exists_of_mem_readPlaces read
    obtain rfl := unique known same
    exact ⟨inside, fun _ => ⟨plans, expr, comp.planned, readsAs, shows⟩,
      fun unread => absurd isRead unread⟩
  · obtain ⟨c', known, same, inside, first, found, made⟩ :=
      comp.exists_of_mem_anchorPlaces anchored
    obtain rfl := unique known same
    refine ⟨inside, fun isRead => ?_, fun _ => ⟨first, found, made⟩⟩
    exact absurd (comp.mem_readPlaces isRead)
      (nodup_anchorMarks.2 _ (List.mem_map_of_mem anchored))

/-- Both connections into one input are located, though only one of them is read. -/
theorem connectionLocations_priceLog : ∃ compiled, compile .default ⟨[]⟩ priceLog = .ok compiled
    ∧ (compiled.sourceMap.connections.map (·.1)).Perm ["volume", "price"]
    ∧ ∀ c ∈ priceLog.connections, ∃ place,
      compiled.sourceMap.connectionLocations c.id = [place]
        ∧ compiled.sourceMap.InUpdate "log\n" place := by
  obtain ⟨compiled, h⟩ := isOk_compile_priceLog
  have distinct : (priceLog.connections.map (·.id)).Nodup := by decide
  obtain ⟨keys, places⟩ := (connectionLocations_of_compile distinct h).2 (by simp [priceLog])
  have target : ∀ c ∈ priceLog.connections, c.targetBlockId = "log\n" := by decide
  refine ⟨compiled, h, keys, fun c mem => ?_⟩
  obtain ⟨place, only, inside, -⟩ := places c mem
  rw [target c mem] at inside
  exact ⟨place, only, inside⟩

/-- The connection that wins is found in the call that reads it, not in the text that looks like it;
the other one at the comment above. -/
example : (compile .default ⟨[]⟩ priceLog).toOption.map (·.sourceMap.connections)
    = some [("price", [⟨40, 77, .update⟩]), ("volume", [⟨39, 1, .update⟩])] := by
  decide +kernel

/-- A strategy without blocks, with a connection between blocks that do not exist. -/
def adrift : Definition :=
  { Definition.new "s1" "Test" "t" ⟨0, 0⟩ with
    connections := [⟨"c1", "a", "a:out:b", "c", "c:in:d", .number⟩] }

/-- The connection of a strategy without blocks has no place, although the strategy compiles. -/
theorem connections_adrift : (adrift.connections.map (·.id)).Nodup
    ∧ ∃ compiled, compileDefault adrift = .ok compiled
      ∧ ¬ (compiled.sourceMap.connections.map (·.1)).Perm (adrift.connections.map (·.id)) := by
  have none : (compileDefault adrift).toOption.map (·.sourceMap.connections) = some [] := by
    decide +kernel
  refine ⟨by decide, ?_⟩
  cases result : compileDefault adrift with
  | ok compiled =>
    rw [result] at none
    refine ⟨compiled, rfl, ?_⟩
    rw [show compiled.sourceMap.connections = [] from Option.some.inj none]
    decide
  | error e =>
    rw [result] at none
    contradiction

end StrategyCanvas.Code
