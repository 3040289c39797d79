import Mathlib.Data.List.Flatten
import Mathlib.Tactic.ByContra
import StrategyCanvas.Finding.Report

/-!
# The rules for connections

What is wrong with a connection is said by rules that look through all blocks and all other
connections (`Connection.defects`). An index finds the same (`ConnectionIndex.Holds.check`): its
tables hold the first block of an id and the ids of the connections recorded so far, and recording
one more connection keeps this (`Holds.insert`). Whether a set has an id besides a given one is
read off the number of its ids, which is sound as no id is in it twice (`IdSet.hasOther_iff`).
-/

namespace StrategyCanvas

/-! ## Rules -/

namespace Connection

/-- Whether a connection with another id joins the same ports. -/
def isRepeated (c : Connection) (existing : List Connection) : Bool :=
  existing.any fun d => d.id ≠ c.id && d.sameEndpoints c

/-- Whether a connection with another id ends at the same input. -/
def sharesInput (c : Connection) (existing : List Connection) : Bool :=
  existing.any fun d => d.id ≠ c.id && d.targetInputId = c.targetInputId

/-- The ports that a connection names and its blocks do not have. -/
def portDefects (c : Connection) (source target : Block) : List Defect :=
  (if (source.output? c.sourceOutputId).isNone then
    [.missingOutput c.id source.id source.name c.sourceOutputId] else [])
  ++ if (target.input? c.targetInputId).isNone then
    [.missingInput c.id target.id target.name c.targetInputId] else []

/-- What is wrong with a connection between two ports that exist. -/
def wireDefects (c : Connection) (existing : List Connection) (source target : Block)
    (output : OutputPort) (input : InputPort) : List Defect :=
  (if source.id = target.id then [.selfConnection c.id source.id source.name] else [])
  ++ (if c.isRepeated existing then
    [.duplicateConnection c.id source.name output.name target.name input.name] else [])
  ++ (if output.dataKind.feeds input.dataKind then [] else
    [.typeMismatch c.id target.id output.name input.name output.dataKind input.dataKind])
  ++ if !c.isRepeated existing && c.sharesInput existing then
    [.multipleInputs c.id target.id target.name input.name] else []

/-- What is wrong with a connection between the blocks, given the other connections. A missing block
hides everything else, and so does a missing port. -/
def defects (c : Connection) (blocks : List Block) (existing : List Connection) : List Defect :=
  match blocks.find? (·.id = c.sourceBlockId), blocks.find? (·.id = c.targetBlockId) with
  | none, _ => [.missingBlock c.id c.sourceBlockId]
  | some _, none => [.missingBlock c.id c.targetBlockId]
  | some source, some target =>
    match source.output? c.sourceOutputId, target.input? c.targetInputId with
    | some output, some input => c.wireDefects existing source target output input
    | _, _ => c.portDefects source target

end Connection

/-! ## Tables of ids -/

/-- An id that is inserted is in the set, with those that were there. -/
theorem IdSet.mem_insert {s : IdSet} {id k : String} :
    k ∈ (s.insert id).ids ↔ k = id ∨ k ∈ s.ids := by
  unfold insert
  split
  · rename_i known
    constructor
    · exact .inr
    · rintro (rfl | mem)
      · exact known
      · exact mem
  · exact List.mem_cons

/-- The number of ids tells whether there is another one, as no id is counted twice. -/
theorem IdSet.hasOther_iff {s : IdSet} {id : String} :
    s.hasOther id = true ↔ ∃ k ∈ s.ids, k ≠ id := by
  obtain ⟨ids, nodup⟩ := s
  match ids, nodup with
  | [], _ => simp [hasOther]
  | [a], _ => simpa [hasOther] using ne_comm
  | a :: b :: rest, nodup =>
    have distinct : a ≠ b := (List.pairwise_cons.mp nodup).1 b List.mem_cons_self
    have many : 1 < (a :: b :: rest).length := by simp
    simp only [hasOther, many, decide_true, Bool.true_or, true_iff]
    -- one of the first two differs from the given id
    by_cases first : a = id
    · exact ⟨b, by simp, fun same => distinct (first.trans same.symm)⟩
    · exact ⟨a, by simp, first⟩

namespace IdTable

variable {κ : Type} [BEq κ] {table : IdTable κ} {key other : κ} {id k : String}
  {keyOf : Connection → κ} {existing : List Connection} {c : Connection}

/-- The ids of a key. -/
def idsAt (table : IdTable κ) (key : κ) : List String := ((table.lookup key).getD .empty).ids

/-- A table has the ids of connections by a key of theirs. -/
def Lists (table : IdTable κ) (keyOf : Connection → κ) (existing : List Connection) : Prop :=
  ∀ key id, id ∈ table.idsAt key ↔ ∃ e ∈ existing, keyOf e = key ∧ e.id = id

theorem lists_nil : Lists ([] : IdTable κ) keyOf [] := by
  intro key id
  simp [idsAt, IdSet.empty]

/-- An id is another one under a key if it is recorded there and differs. -/
theorem hasOther_iff : table.hasOther key id = true ↔ ∃ k ∈ table.idsAt key, k ≠ id := by
  unfold hasOther idsAt
  cases table.lookup key with
  | none => simp [IdSet.empty]
  | some s => simp [IdSet.hasOther_iff]

variable [LawfulBEq κ]

/-- An id that is recorded is found under its key alone. -/
theorem mem_idsAt_record : k ∈ (table.record key id).idsAt other
    ↔ key = other ∧ k = id ∨ k ∈ table.idsAt other := by
  unfold record idsAt
  by_cases same : other = key
  · subst same
    simp [IdSet.mem_insert]
  · rw [List.lookup_cons, beq_eq_false_iff_ne.mpr same]
    simp [Ne.symm same]

/-- A table of connections is one of all of them after the next is recorded. -/
theorem Lists.record (h : table.Lists keyOf existing) :
    (IdTable.record table (keyOf c) c.id).Lists keyOf (existing ++ [c]) := by
  intro key id
  rw [mem_idsAt_record, h key id]
  simp only [List.mem_append, List.mem_singleton, or_and_right, exists_or, exists_eq_left,
    eq_comm (a := id)]
  exact or_comm

/-- A table finds another id under a key exactly if one of the connections has it. -/
theorem Lists.hasOther (h : table.Lists keyOf existing) :
    IdTable.hasOther table (keyOf c) c.id
      = existing.any fun e => e.id ≠ c.id && keyOf e == keyOf c := by
  rw [Bool.eq_iff_iff, hasOther_iff]
  simp only [h (keyOf c), List.any_eq_true, Bool.and_eq_true, decide_eq_true_eq, beq_iff_eq]
  constructor
  · rintro ⟨id, ⟨e, mem, key, rfl⟩, other⟩
    exact ⟨e, mem, other, key⟩
  · rintro ⟨e, mem, other, key⟩
    exact ⟨e.id, ⟨e, mem, key, rfl⟩, other⟩

end IdTable

/-! ## Tables of blocks -/

/-- The table of blocks has the first block of an id. -/
theorem lookup_foldl_addBlock (blocks : List Block) (id : String) :
    (blocks.foldl ConnectionIndex.addBlock []).lookup id = blocks.find? (·.id = id) := by
  -- in general, what the table has already goes before the blocks that are still to be added
  have more (table : List (String × Block)) :
      (blocks.foldl ConnectionIndex.addBlock table).lookup id
        = (table.lookup id).or (blocks.find? (·.id = id)) := by
    induction blocks generalizing table with
    | nil => simp
    | cons b rest ih =>
      rw [List.foldl_cons, ih]
      unfold ConnectionIndex.addBlock
      by_cases same : b.id = id
      · subst same
        rw [List.find?_cons_of_pos (by simp)]
        cases known : table.lookup b.id with
        | none => simp
        | some a => simp [known]
      · rw [List.find?_cons_of_neg (by simpa using same)]
        split
        · rfl
        · rw [List.lookup_cons, beq_eq_false_iff_ne.mpr (Ne.symm same)]
  rw [more]
  simp

/-! ## The index -/

namespace ConnectionIndex

variable {index : ConnectionIndex} {blocks : List Block} {existing : List Connection}
  {c : Connection}

/-- What an index knows: the first block of each id, and the ids of the connections that were
recorded. -/
structure Holds (index : ConnectionIndex) (blocks : List Block) (existing : List Connection) :
    Prop where
  blocks : ∀ id, index.blocks.lookup id = blocks.find? (·.id = id)
  endpoints : index.endpoints.Lists Connection.endpoints existing
  inputs : index.inputs.Lists Connection.targetInputId existing

/-- The index of the blocks knows no connection yet. -/
theorem holds_ofBlocks (blocks : List Block) : (ofBlocks blocks).Holds blocks [] :=
  ⟨lookup_foldl_addBlock blocks, IdTable.lists_nil, IdTable.lists_nil⟩

/-- An index knows a connection once it is inserted. -/
theorem Holds.insert (h : index.Holds blocks existing) :
    (index.insert c).Holds blocks (existing ++ [c]) :=
  ⟨h.blocks, h.endpoints.record, h.inputs.record⟩

/-- An index knows all connections that are inserted one after the other. -/
theorem Holds.foldl_insert (h : index.Holds blocks existing) (more : List Connection) :
    (more.foldl ConnectionIndex.insert index).Holds blocks (existing ++ more) := by
  induction more generalizing index existing with
  | nil => simpa using h
  | cons c rest ih =>
    have assoc : existing ++ c :: rest = (existing ++ [c]) ++ rest := by simp
    rw [List.foldl_cons, assoc]
    exact ih h.insert

/-- Checked with the index, two ports have the same defects as by the plain rules. -/
theorem Holds.checkPorts (h : index.Holds blocks existing) (source target : Block)
    (output : OutputPort) (input : InputPort) :
    index.checkPorts c source target output input
      = c.wireDefects existing source target output input := by
  have repeated : index.endpoints.hasOther c.endpoints c.id = c.isRepeated existing := by
    rw [h.endpoints.hasOther]
    rfl
  have shares : index.inputs.hasOther c.targetInputId c.id = c.sharesInput existing := by
    rw [h.inputs.hasOther]
    rfl
  unfold ConnectionIndex.checkPorts Connection.wireDefects
  rw [repeated, shares]
  cases output.dataKind.feeds input.dataKind <;> rfl

/-- A connection that is checked against an index is judged by the rules, given the connections that
the index has recorded. -/
theorem Holds.check (h : index.Holds blocks existing) (c : Connection) :
    index.check c = c.defects blocks existing := by
  unfold ConnectionIndex.check Connection.defects
  rw [h.blocks, h.blocks]
  cases blocks.find? (·.id = c.sourceBlockId) with
  | none => rfl
  | some source =>
    cases blocks.find? (·.id = c.targetBlockId) with
    | none => rfl
    | some target =>
      dsimp only
      cases ho : source.output? c.sourceOutputId with
      | none => simp [Connection.portDefects, ho]
      | some output =>
        cases hi : target.input? c.targetInputId with
        | none => simp [Connection.portDefects, ho, hi]
        | some input => exact h.checkPorts source target output input

/-- Connections that are checked one after the other are judged in the light of those before. -/
theorem Holds.checkAll (h : index.Holds blocks existing) (connections : List Connection) :
    index.checkAll connections
      = collectInOrder (fun before c => c.defects blocks before) existing connections := by
  induction connections generalizing index existing with
  | nil => rfl
  | cons c rest ih => rw [ConnectionIndex.checkAll, collectInOrder, h.check, ih h.insert]

end ConnectionIndex

/-! ## Findings -/

/-- The findings on a connection are its defects, put into words. -/
theorem Connection.findings_eq (c : Connection) (blocks : List Block)
    (existing : List Connection) :
    c.findings blocks existing = (c.defects blocks existing).map (·.finding) := by
  have holds := (ConnectionIndex.holds_ofBlocks blocks).foldl_insert existing
  rw [findings, holds.check, List.nil_append]

namespace Definition

/-- What is found about the connections of a strategy. -/
def connectionDefects (d : Definition) : List Defect :=
  collectInOrder (fun before c => c.defects d.blocks before) [] d.connections

/-- The defects of a drawing by the plain rules, without an index. -/
theorem canvasDefects_by_rules (d : Definition) : d.canvasDefects
    = collectInOrder Block.defects [] d.blocks ++ d.connectionDefects ++ d.flowDefects
      ++ (d.blocks.filter d.isOrphaned).map (fun b => .orphanedBlock b.id b.name)
      ++ if d.hasCycle then [.circularDependency] else [] := by
  rw [canvasDefects, (ConnectionIndex.holds_ofBlocks d.blocks).checkAll, connectionDefects]

end Definition

end StrategyCanvas
