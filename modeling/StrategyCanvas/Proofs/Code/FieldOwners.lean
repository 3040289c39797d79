import StrategyCanvas.Proofs.Code.DeclaredFields

/-!
# The blocks that fields belong to

Which block a field is declared for is read off the code and its source map together: the line that
declares the field is a line of the block. Every declared field has such a block, and the fields of
a block are those of its plan and its state (`Compiles.ownedFields_eq`).
-/

namespace StrategyCanvas.Code

open Text

/-- The number of the first line inside the structure. -/
def structureStart (code : String) : Nat := (linesOf code).findIdx opensStructure + 2

/-- The fields that the structure in the code declares, each behind the block that its line comes
from. -/
def Compiled.ownedFields (c : Compiled) : List (String × String) :=
  ((structureLines (linesOf c.code)).zipIdx (structureStart c.code)).filterMap fun (line, number) =>
    (declaredName? line).bind fun name => (c.sourceMap.blockAt? number).map (·, name)

/-- What a block declares, behind its id. -/
def Emission.ownedFields (e : Emission) : List (String × String) :=
  e.rows.map fun r => (e.blockId, r.name)

namespace Program

variable {p : Program} {unit : Nat} {connections : List Connection} {entry : Entry} {m : Mark}

/-! ## Places of entries -/

/-- An entry stands on the line that its place says. -/
theorem exists_markedLine {k : Nat} (h : p.entries[k]? = some entry) (mark : entry.mark = some m) :
    ∃ l, (m, l) ∈ p.markedLines unit ∧ l.number = k + 1 := by
  have bound : k < (p.lines unit).length := by
    simpa [lines] using (List.getElem?_eq_some_iff.mp h).1
  have line : (p.lines unit)[k]? = some (p.lines unit)[k] := List.getElem?_eq_getElem bound
  have pair : (p.entries.zip (p.lines unit))[k]? = some (entry, (p.lines unit)[k]) := by
    rw [List.getElem?_zip_eq_some]
    exact ⟨h, line⟩
  refine ⟨_, List.mem_filterMap.mpr ⟨_, List.mem_of_getElem? pair, ?_⟩, number_of_getElem?_lay line⟩
  simp [mark]

/-- The entries above the fields of the structure. -/
def topEntries (p : Program) : List Entry :=
  p.heading ++ [.line ("/// Strategy " ++ quote p.strategyName), .line "#[derive(Debug, Clone)]",
    .opening p.opening].map Entry.plain

theorem exists_entries_eq_top (p : Program) :
    ∃ below, p.entries = p.topEntries ++ (p.declarations ++ below) := by
  refine ⟨[closingBrace, .plain .blank] ++ p.functionsOpening ++ p.construction ++ p.execution
    ++ p.resetting ++ p.getter ++ p.setter ++ p.keyList ++ p.defaulting, ?_⟩
  simp [entries, declaration, declarations, topEntries, opening]

/-- Eight entries stand above the first declaration. -/
theorem getElem?_entries {k : Nat} (h : p.declarations[k]? = some entry) :
    p.entries[k + 8]? = some entry := by
  obtain ⟨below, split⟩ := p.exists_entries_eq_top
  have above : p.topEntries.length = 8 := rfl
  have bound := (List.getElem?_eq_some_iff.mp h).1
  rw [split, List.getElem?_append_right (by omega), above, Nat.add_sub_cancel,
    List.getElem?_append_left bound, h]

theorem structureStart_text (tidy : ∀ entry ∈ p.entries, IsOneLine entry.text) (unit : Nat) :
    structureStart (p.text unit) = 9 := by
  obtain ⟨rest, lines⟩ := exists_linesOf_text tidy unit
  have before : (p.above.map String.toList).findIdx opensStructure = 7 := by
    rw [List.findIdx_eq_length.mpr p.opensStructure_above]
    rfl
  rw [structureStart, lines, List.findIdx_append, before, List.findIdx_cons,
    p.opensStructure_opening]
  rfl

/-! ## Owners -/

/-- The line of a declaration comes from the block that declares. -/
theorem blockAt?_of_declaration {number : Nat} (h : (entry, number) ∈ p.declarations.zipIdx 9)
    (mark : entry.mark = some m) :
    (p.sourceMap unit connections).blockAt? number = some m.blockId := by
  obtain ⟨below, here⟩ := List.mk_mem_zipIdx_iff_le_and_getElem?_sub.mp h
  have line : ∃ l, (m, l) ∈ p.markedLines unit ∧ l.number = number - 9 + 8 + 1 :=
    exists_markedLine (getElem?_entries here) mark
  obtain ⟨l, marked, place⟩ := line
  have same : l.number = number := by omega
  rw [← same]
  exact blockAt?_of_mem_markedLines marked

end Program

theorem Emission.mark_of_mem_declarations {e : Emission} {entry : Entry}
    (h : entry ∈ e.declarations) : ∃ m, entry.mark = some m ∧ m.blockId = e.blockId := by
  rcases List.mem_cons.mp h with rfl | field
  · exact ⟨_, rfl, rfl⟩
  · obtain ⟨r, -, rfl⟩ := List.mem_map.mp field
    exact ⟨_, rfl, rfl⟩

/-- What a declaration declares, behind the block that it comes from. -/
def Entry.owned? (unit : Nat) (entry : Entry) : Option (String × String) :=
  (declaredName? (List.replicate unit ' ' ++ entry.text.toList)).bind fun name =>
    entry.mark.map (·.blockId, name)

theorem Emission.filterMap_owned? {e : Emission} (tidy : e.IsTidy) (unit : Nat) :
    e.declarations.filterMap (Entry.owned? unit) = e.ownedFields := by
  have own : ∀ entry ∈ e.declarations, entry.owned? unit
      = (declaredName? (List.replicate unit ' ' ++ entry.text.toList)).map (e.blockId, ·) := by
    intro entry mem
    obtain ⟨m, mark, id⟩ := mark_of_mem_declarations mem
    rw [Entry.owned?, mark, ← id, Option.map_eq_bind]
    rfl
  rw [List.filterMap_congr own, ← List.map_filterMap, filterMap_declarations tidy, List.map_map]
  rfl

variable {o : Options} {catalog : Catalog} {d : Definition} {compiled : Compiled}
  {plans : List BlockPlan} {es : List Emission}

/-- The declared fields are found with the blocks that declare them. -/
theorem Compiles.ownedFields_eq (h : Compiles o catalog d compiled plans es) :
    compiled.ownedFields = es.flatMap Emission.ownedFields := by
  have oneLine : ∀ entry ∈ (o.program d es).entries, IsOneLine entry.text :=
    fun entry mem => (h.tidy entry mem).isOneLine
  -- the source map gives the block that the mark of the declaration names
  have placed : ∀ x ∈ (o.program d es).declarations.zipIdx 9,
      ((declaredName? (List.replicate o.indent ' ' ++ x.1.text.toList)).bind fun name =>
        (compiled.sourceMap.blockAt? x.2).map (·, name)) = x.1.owned? o.indent := by
    rintro ⟨entry, number⟩ mem
    obtain ⟨e, -, listed⟩ := List.mem_flatMap.mp (List.fst_mem_of_mem_zipIdx mem)
    obtain ⟨m, mark, -⟩ := Emission.mark_of_mem_declarations listed
    rw [h.sourceMap_eq, Program.blockAt?_of_declaration mem mark, Entry.owned?, mark]
    rfl
  calc compiled.ownedFields
      = ((o.program d es).declarations.zipIdx 9).filterMap fun x => x.1.owned? o.indent := by
        rw [Compiled.ownedFields, h.code_eq, Program.structureLines_linesOf_text oneLine,
          Program.structureStart_text oneLine, List.zipIdx_map, List.filterMap_map]
        exact List.filterMap_congr placed
    _ = (o.program d es).declarations.filterMap (Entry.owned? o.indent) := by
        -- with the block known from the mark, the number of the line no longer matters
        conv_rhs => rw [← List.zipIdx_map_fst 9 (o.program d es).declarations, List.filterMap_map]
        rfl
    _ = es.flatMap fun e => e.declarations.filterMap (Entry.owned? o.indent) := by
        rw [Program.declarations, List.filterMap_flatMap]
        rfl
    _ = es.flatMap Emission.ownedFields :=
        List.flatMap_congr fun e mem => Emission.filterMap_owned? (h.isClosed e mem).tidy o.indent

/-- No declared field is without a block. -/
theorem Compiles.map_snd_ownedFields (h : Compiles o catalog d compiled plans es) :
    compiled.ownedFields.map (·.2) = declaredFields compiled.code := by
  rw [h.ownedFields_eq, h.declaredFields_eq, fieldNames, List.map_flatMap]
  refine List.flatMap_congr fun e _ => ?_
  rw [Emission.ownedFields, List.map_map]
  rfl

end StrategyCanvas.Code
