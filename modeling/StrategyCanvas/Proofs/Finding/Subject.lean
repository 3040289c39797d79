import StrategyCanvas.Proofs.Finding.Report

/-!
# What a finding is about

Of the findings about a strategy, those that name a connection are exactly those of the checks of
its connections, each of which is looked at in the light of those before it. They are what the rules
say that look through all blocks and all connections (`connectionFindings_by_rules`).
-/

namespace StrategyCanvas

/-! ## Elements by their place -/

theorem collectInOrder_append {α β : Type} {say : List α → α → List β} {before as bs : List α} :
    collectInOrder say before (as ++ bs)
      = collectInOrder say before as ++ collectInOrder say (before ++ as) bs := by
  induction as generalizing before with
  | nil => simp [collectInOrder]
  | cons a rest ih => simp [collectInOrder, ih]

/-- What is said in order is said of one element after the other, given those in front of it. -/
theorem map_collectInOrder {α β γ : Type} {say : List α → α → List β} {before as : List α}
    (f : β → γ) : (collectInOrder say before as).map f
      = (as.mapIdx fun i a => (say (before ++ as.take i) a).map f).flatten := by
  induction as generalizing before with
  | nil => rfl
  | cons a rest ih => simp [collectInOrder, List.mapIdx_cons, ih]

/-! ## Defects of connections -/

/-- The connection that a defect is about. -/
def Defect.connectionId? : Defect → Option String
  | .missingBlock id _ | .missingOutput id _ _ _ | .missingInput id _ _ _ | .selfConnection id _ _
  | .duplicateConnection id _ _ _ _ | .typeMismatch id _ _ _ _ _ | .multipleInputs id _ _ _ =>
    some id
  | _ => none

@[simp] theorem Defect.connectionId_finding (f : Defect) :
    f.finding.connectionId = f.connectionId? := by
  cases f <;> rfl

theorem Defect.connectionId?_eq_none {f : Defect} (h : f.code ∉ [.invalidConnection,
    .duplicateConnection, .typeMismatch, .multipleInputs]) : f.connectionId? = none := by
  cases f <;> first | rfl | simp [Defect.code] at h

theorem Property.connectionId?_of_defect? {p : Property} {b : Block} {f : Defect}
    (h : p.defect? b = some f) : f.connectionId? = none := by
  refine f.connectionId?_eq_none ?_
  rcases code_of_defect? h with code | code | code | ⟨code, -⟩ <;> rw [code] <;> decide

theorem Block.connectionId?_of_mem_defects {before : List Block} {b : Block} {f : Defect}
    (h : f ∈ b.defects before) : f.connectionId? = none := by
  rcases code_of_mem_defects h with code | ⟨p, -, found⟩
  · exact f.connectionId?_eq_none (by rw [code]; decide)
  · exact Property.connectionId?_of_defect? found

theorem Connection.connectionId?_of_mem_defects {c : Connection} {blocks : List Block}
    {existing : List Connection} {f : Defect} (h : f ∈ c.defects blocks existing) :
    f.connectionId? = some c.id := by
  unfold defects at h
  split at h
  · rw [List.mem_singleton.mp h]
    rfl
  · rw [List.mem_singleton.mp h]
    rfl
  · split at h
    · simp only [wireDefects, List.mem_append] at h
      rcases h with ((h | h) | h) | h <;> split at h <;> simp_all [Defect.connectionId?]
    · simp only [portDefects, List.mem_append] at h
      rcases h with h | h <;> split at h <;> simp_all [Defect.connectionId?]

/-! ## Findings about connections -/

namespace Definition

variable {d : Definition}

/-- Only what is wrong with a connection is about a connection. -/
theorem exists_defects_eq (canvas : d.blocks ≠ []) : ∃ front back, d.defects
    = front ++ d.connectionDefects ++ back
    ∧ (∀ f ∈ front, f.connectionId? = none) ∧ ∀ f ∈ back, f.connectionId? = none := by
  have inhabited : d.blocks.isEmpty = false := by simpa using canvas
  refine ⟨(if Text.isBlankText d.name then [.missingName] else [])
      ++ collectInOrder Block.defects [] d.blocks,
    d.flowDefects ++ (d.blocks.filter d.isOrphaned).map (fun b => .orphanedBlock b.id b.name)
      ++ if d.hasCycle then [.circularDependency] else [], ?_, ?_, ?_⟩
  · simp [defects, inhabited, canvasDefects_by_rules]
  · rw [List.forall_mem_append]
    constructor
    · split <;> simp [Defect.connectionId?]
    · intro f mem
      obtain ⟨front, b, back, -, here⟩ := mem_collectInOrder_iff.mp mem
      exact Block.connectionId?_of_mem_defects here
  · rw [List.forall_mem_append, List.forall_mem_append, List.forall_mem_map]
    refine ⟨⟨fun f mem => f.connectionId?_eq_none ?_, fun b _ => rfl⟩, ?_⟩
    · rcases code_of_mem_flowDefects mem with code | code | code <;> rw [code] <;> decide
    · split <;> simp [Defect.connectionId?]

/-- A choice among defects by the connection that they are about takes them from the connections. -/
theorem filter_defects_by_connection (canvas : d.blocks ≠ []) (choose : Option String → Bool)
    (about : choose none = false) : d.defects.filter (fun f => choose f.connectionId?)
      = d.connectionDefects.filter fun f => choose f.connectionId? := by
  obtain ⟨front, back, parts, before, after⟩ := exists_defects_eq canvas
  have nothing {fs : List Defect} (h : ∀ f ∈ fs, f.connectionId? = none) :
      fs.filter (fun f => choose f.connectionId?) = [] := by
    rw [List.filter_eq_nil_iff]
    intro f mem
    simp [h f mem, about]
  rw [parts, List.filter_append, List.filter_append, nothing before, nothing after,
    List.append_nil, List.nil_append]

/-- The findings about a connection are what the rules say that look through all blocks and all
other connections, whatever ids these have. The findings about the connections of a strategy are
those, one connection after the other, each given the connections in front of it. -/
theorem connectionFindings_by_rules :
    (∀ (c : Connection) (blocks : List Block) (existing : List Connection),
      c.findings blocks existing = (c.defects blocks existing).map (·.finding))
    ∧ ∀ d : Definition, d.blocks ≠ [] → d.findings.filter (·.connectionId.isSome)
      = (d.connections.mapIdx fun i c => c.findings d.blocks (d.connections.take i)).flatten := by
  refine ⟨Connection.findings_eq, fun d canvas => ?_⟩
  -- whatever is wrong with a connection names it, so the choice drops nothing of it
  have own : d.connectionDefects.filter (·.connectionId?.isSome) = d.connectionDefects := by
    rw [List.filter_eq_self]
    intro f mem
    obtain ⟨front, c, back, -, here⟩ := mem_collectInOrder_iff.mp mem
    rw [Connection.connectionId?_of_mem_defects here]
    rfl
  have kept : d.defects.filter (·.connectionId?.isSome) = d.connectionDefects := by
    rw [filter_defects_by_connection canvas Option.isSome rfl, own]
  have reported : d.findings.filter (·.connectionId.isSome)
      = d.connectionDefects.map (·.finding) := by
    rw [← kept, findings, List.filter_map]
    simp [Function.comp_def]
  simp only [reported, connectionDefects, map_collectInOrder, List.nil_append,
    Connection.findings_eq]

/-- Two blocks, the first of which feeds the second. -/
def pair : Definition :=
  let block (id name : String) : Block :=
    { id := id
      type := "sma"
      category := .indicator
      name := name
      description := ""
      position := .origin
      size := .usual
      inputs := [⟨id ++ ":in:source", "Source", .number, true⟩]
      outputs := [⟨id ++ ":out:value", "Value", .indicator⟩]
      properties := [] }
  { new "s1" "Pair" "t" ⟨0, 0⟩ with
    blocks := [block "a" "Fast", block "b" "Slow"]
    connections := [⟨"c1", "a", "a:out:value", "b", "b:in:source", .indicator⟩] }

/-- The same two blocks, with connections that share ids and inputs. -/
def crowded : Definition :=
  let wire (id source output : String) : Connection :=
    ⟨id, source, output, "b", "b:in:source", .indicator⟩
  { pair with connections := [wire "c1" "a" "a:out:value", wire "c1" "a" "a:out:value",
      wire "c2" "a" "a:out:value", wire "c3" "b" "b:out:value", wire "c3" "x" "a:out:value"] }

/-- A second connection of the same id repeats nothing, one of another id repeats both. The block
that the last one starts at is missing, so its input is not looked at. -/
theorem connectionFindings_crowded : crowded.blocks ≠ []
    ∧ (crowded.findings.filter (·.connectionId.isSome)).map (fun f => (f.connectionId, f.code))
      = [(some "c2", .duplicateConnection), (some "c3", .invalidConnection),
        (some "c3", .multipleInputs), (some "c3", .invalidConnection)] := by
  have canvas : crowded.blocks ≠ [] := by simp [crowded, pair]
  refine ⟨canvas, ?_⟩
  rw [connectionFindings_by_rules.2 crowded canvas]
  decide +kernel

end Definition

end StrategyCanvas
