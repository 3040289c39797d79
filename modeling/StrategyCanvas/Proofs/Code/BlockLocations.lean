import StrategyCanvas.Proofs.Code.Entries
import StrategyCanvas.Proofs.Code.SourceMap

/-!
# Where blocks are found in code

The lines of a program are numbered as they are read, so every recorded place of a block is the
beginning of a line of the finished text (`Program.begins_of_mem_markedLines`), and no line belongs
to two blocks (`Program.eq_of_number_eq`).
-/

namespace StrategyCanvas.Code

open Text

/-- A place at the beginning of a line of code: in front of it there are only spaces. -/
def Location.Begins (l : Location) (code : String) : Prop :=
  ∃ chars c, 1 ≤ l.line ∧ (linesOf code)[l.line - 1]? = some chars
    ∧ 1 ≤ l.column ∧ chars.take (l.column - 1) = List.replicate (l.column - 1) ' '
    ∧ chars[l.column - 1]? = some c ∧ c ≠ ' '

namespace Program

variable {p : Program} {unit : Nat} {connections : List Connection} {ids : List String}
  {m : Mark} {l : LaidLine} {id : String}

/-! ## Marked lines -/

/-- A line has one mark only. -/
theorem eq_of_number_eq {m' : Mark} {l' : LaidLine} (h : (m, l) ∈ p.markedLines unit)
    (h' : (m', l') ∈ p.markedLines unit) (same : l.number = l'.number) : m = m' ∧ l = l' := by
  have distinct : ((p.markedLines unit).map (·.2.number)).Nodup := by
    rw [List.Nodup, List.pairwise_map]
    exact (pairwise_markedLines p unit).imp Nat.ne_of_lt
  exact Prod.mk.inj (List.inj_on_of_nodup_map distinct h h' same)

theorem getElem?_linesOf_text (tidy : ∀ entry ∈ p.entries, entry.IsTidy ids)
    (h : l ∈ p.lines unit) :
    1 ≤ l.number ∧ (linesOf (p.text unit))[l.number - 1]? = some l.chars :=
  getElem?_linesOf_sheetText (forall_text_lines fun entry mem => (tidy entry mem).isOneLine) h

theorem begins_of_mem_markedLines (tidy : ∀ entry ∈ p.entries, entry.IsTidy ids)
    (h : (m, l) ∈ p.markedLines unit) : (m.location l).Begins (p.text unit) := by
  obtain ⟨counted, here⟩ := getElem?_linesOf_text tidy (mem_lines_of_mem_markedLines h)
  obtain ⟨c, first, visible⟩ := (Option.any_eq_true ..).mp (isTidy_of_mem_markedLines tidy h).2
  have column : (m.location l).column - 1 = l.indent := Nat.add_sub_cancel ..
  have behind : l.chars[l.indent]? = some c := by
    rw [← first, ← List.head?_drop]
    exact congrArg List.head? (l.drop_chars 0)
  unfold Location.Begins
  rw [column]
  exact ⟨l.chars, c, counted, here, Nat.le_add_left 1 _, l.take_chars, behind,
    by simpa using visible⟩

/-! ## Locations -/

theorem blocks_sourceMap (p : Program) (unit : Nat) (connections : List Connection) :
    (p.sourceMap unit connections).blocks = SourceMap.group (blockMarks (p.markedLines unit)) := by
  rw [sourceMap]

/-- The places of a block are those of the lines with its mark. -/
theorem blockLocations_eq : (p.sourceMap unit connections).blockLocations id
    = ((p.markedLines unit).filter (·.1.blockId = id)).map fun x => x.1.location x.2 := by
  rw [SourceMap.blockLocations, blocks_sourceMap, SourceMap.getD_lookup_group, blockMarks,
    List.filter_map, List.map_map]
  rfl

theorem mem_blockLocations_iff {place : Location} :
    place ∈ (p.sourceMap unit connections).blockLocations id
      ↔ ∃ m l, (m, l) ∈ p.markedLines unit ∧ m.blockId = id ∧ m.location l = place := by
  rw [blockLocations_eq]
  simp [and_assoc]

theorem map_fst_blocks_perm {names : List String} (distinct : names.Nodup)
    (same : ∀ id, (∃ m l, (m, l) ∈ p.markedLines unit ∧ m.blockId = id) ↔ id ∈ names) :
    ((p.sourceMap unit connections).blocks.map (·.1)).Perm names := by
  have ids (id : String) : id ∈ (blockMarks (p.markedLines unit)).map (·.1) ↔ id ∈ names := by
    rw [← same, blockMarks, List.map_map]
    simp
  rw [blocks_sourceMap]
  exact SourceMap.map_fst_group_perm distinct ids

/-- A marked line belongs to the block of its mark. -/
theorem blockAt?_of_mem_markedLines (h : (m, l) ∈ p.markedLines unit) :
    (p.sourceMap unit connections).blockAt? l.number = some m.blockId := by
  have marked : (m.blockId, m.location l) ∈ blockMarks (p.markedLines unit) :=
    List.mem_map.mpr ⟨(m, l), h, rfl⟩
  have only : ∀ x ∈ blockMarks (p.markedLines unit), x.2.line = l.number → x.1 = m.blockId := by
    rw [blockMarks, List.forall_mem_map]
    rintro ⟨m', l'⟩ h' same
    rw [(eq_of_number_eq h' h same).1]
  unfold sourceMap
  exact SourceMap.blockAt?_group marked rfl only

/-- Places of a block are recorded from top to bottom. -/
theorem pairwise_blockLocations :
    ((p.sourceMap unit connections).blockLocations id).Pairwise (·.line < ·.line) := by
  rw [blockLocations_eq, List.pairwise_map]
  exact (pairwise_markedLines p unit).filter _

/-! ## Updates -/

/-- The lines of the updates of blocks. -/
def updateLines (p : Program) (unit : Nat) : List (Mark × LaidLine) :=
  (p.markedLines unit).filter (·.1.part = .update)

/-- The updates of blocks are written in order, each with its comment and its statements. -/
theorem map_updateLines (p : Program) (unit : Nat) :
    (p.updateLines unit).map (fun x => (x.1, x.2.text)) = p.blocks.flatMap (·.updateTexts) := by
  have marked : p.entries.filterMap Entry.update?
      = (p.entries.filterMap Entry.marked?).filter (·.1.part = .update) := by
    rw [List.filter_filterMap]
    rfl
  rw [← filterMap_update?_entries, marked, ← map_markedLines p unit, List.filter_map]
  rfl

/-- The update of every block has a line. -/
theorem exists_updateLine {e : Emission} (h : e ∈ p.blocks) :
    ∃ m l, (m, l) ∈ p.updateLines unit ∧ m.blockId = e.blockId := by
  have written : (⟨e.blockId, .update, false⟩, e.comment) ∈ p.blocks.flatMap (·.updateTexts) :=
    List.mem_flatMap.mpr ⟨e, h, List.mem_cons_self⟩
  rw [← map_updateLines p unit] at written
  obtain ⟨⟨m, l⟩, mem, same⟩ := List.mem_map.mp written
  exact ⟨m, l, mem, congrArg (·.1.blockId) same⟩

/-- The lines of an update are places of the block. -/
theorem mem_blockLocations_of_mem_updateLines (connections : List Connection)
    (h : (m, l) ∈ p.updateLines unit) :
    m.location l ∈ (p.sourceMap unit connections).blockLocations m.blockId ∧ m.part = .update := by
  obtain ⟨marked, part⟩ := List.mem_filter.mp h
  exact ⟨mem_blockLocations_iff.mpr ⟨m, l, marked, rfl, rfl⟩, of_decide_eq_true part⟩

end Program

/-! ## Compiled strategies -/

section

variable {o : Options} {catalog : Catalog} {d : Definition} {compiled : Compiled}
  {plans : List BlockPlan} {es : List Emission} {id : String}

/-- Every block has a place in its update. -/
theorem Compiles.exists_update (h : Compiles o catalog d compiled plans es)
    (mem : id ∈ d.blockIds) : ∃ l ∈ compiled.sourceMap.blockLocations id, l.part = .update := by
  obtain ⟨e, known, rfl⟩ := List.mem_map.mp (h.arranged.perm.mem_iff.mpr mem)
  obtain ⟨m, l, written, same⟩ := Program.exists_updateLine (p := o.program d es) known
  obtain ⟨listed, part⟩ := Program.mem_blockLocations_of_mem_updateLines d.connections written
  rw [h.sourceMap_eq, ← same]
  exact ⟨m.location l, listed, part⟩

/-- Only blocks have places. -/
theorem Compiles.mem_blockIds (h : Compiles o catalog d compiled plans es) {l : Location}
    (mem : l ∈ compiled.sourceMap.blockLocations id) : id ∈ d.blockIds := by
  rw [h.sourceMap_eq] at mem
  obtain ⟨m, l, marked, rfl, -⟩ := Program.mem_blockLocations_iff.mp mem
  exact h.arranged.perm.mem_iff.mp (Program.isTidy_of_mem_markedLines h.tidy marked).1.known

/-- In a compiled strategy exactly the blocks have places in the code, each of them in its update.
Such a place is the beginning of a line that comes from the block and from no other, and the places
of a block are recorded from top to bottom. All of this holds whatever is in the texts of the
strategy. -/
theorem blockLocations_of_compile (h : compile o catalog d = .ok compiled) :
    (compiled.sourceMap.blocks.map (·.1)).Perm d.blockIds
    ∧ (∀ id ∈ d.blockIds, ∃ l ∈ compiled.sourceMap.blockLocations id, l.part = .update)
    ∧ (∀ id, ∀ l ∈ compiled.sourceMap.blockLocations id,
        l.Begins compiled.code ∧ compiled.sourceMap.blockAt? l.line = some id)
    ∧ ∀ id, (compiled.sourceMap.blockLocations id).Pairwise (·.line < ·.line) := by
  obtain ⟨plans, es, c⟩ := exists_compiles h
  have known (id : String) : (∃ l, l ∈ compiled.sourceMap.blockLocations id) ↔ id ∈ d.blockIds := by
    constructor
    · rintro ⟨l, mem⟩
      exact c.mem_blockIds mem
    · intro mem
      obtain ⟨l, listed, -⟩ := c.exists_update mem
      exact ⟨l, listed⟩
  refine ⟨?_, fun id mem => c.exists_update mem, ?_⟩
  · rw [c.sourceMap_eq] at known ⊢
    refine Program.map_fst_blocks_perm c.sound.distinct.1 fun id => ?_
    rw [← known]
    simp [Program.mem_blockLocations_iff]
  · rw [c.sourceMap_eq, c.code_eq]
    refine ⟨fun id l mem => ?_, fun id => Program.pairwise_blockLocations⟩
    obtain ⟨m, l, marked, rfl, rfl⟩ := Program.mem_blockLocations_iff.mp mem
    exact ⟨Program.begins_of_mem_markedLines c.tidy marked,
      Program.blockAt?_of_mem_markedLines marked⟩

end

/-! ## A strategy -/

/-- A strategy that logs a price, with line feeds in its texts and with the text of code in one of
them. The blocks stand against the order in which they run, and of the connections the second one
wins. -/
def priceLog : Definition where
  id := "s\n1"
  name := "Price\r\nlog"
  description := ""
  version := 1
  blocks := [
    { id := "log\n"
      type := "log"
      category := .output
      name := "Log\n// Log"
      description := ""
      position := .origin
      size := .usual
      inputs := [⟨"log:in:value", "Value", .any, true⟩]
      outputs := []
      properties := [
        ⟨"level", "Level", .string, some (.text "info\n"), true, none, none, []⟩,
        ⟨"message", "Message", .string, some (.text "self.o_feed_price\n"), true, none, none,
          []⟩] },
    { id := "feed"
      type := "market_data"
      category := .data
      name := "Feed"
      description := ""
      position := .origin
      size := .usual
      inputs := []
      outputs := [⟨"feed:out:price", "Price", .number⟩, ⟨"feed:out:volume", "Volume", .number⟩,
        ⟨"feed:out:candle", "Candle", .candle⟩]
      properties := [] }]
  connections := [
    ⟨"volume", "feed", "feed:out:volume", "log\n", "log:in:value", .number⟩,
    ⟨"price", "feed", "feed:out:price", "log\n", "log:in:value", .number⟩]
  metadata := ⟨⟨0, 0⟩, ⟨0, 0⟩, "", []⟩

/-- The strategy that logs a price compiles. -/
theorem isOk_compile_priceLog : ∃ compiled, compile .default ⟨[]⟩ priceLog = .ok compiled :=
  exists_of_isSome_toOption (by decide +kernel)

/-- The blocks are located in spite of the line feeds in their texts. -/
theorem blockLocations_priceLog : ∃ compiled, compile .default ⟨[]⟩ priceLog = .ok compiled
    ∧ (compiled.sourceMap.blocks.map (·.1)).Perm ["log\n", "feed"]
    ∧ ∀ id, ∀ l ∈ compiled.sourceMap.blockLocations id, l.Begins compiled.code := by
  obtain ⟨compiled, h⟩ := isOk_compile_priceLog
  obtain ⟨keys, -, places, -⟩ := blockLocations_of_compile h
  exact ⟨compiled, h, keys, fun id l mem => (places id l mem).1⟩

end StrategyCanvas.Code
