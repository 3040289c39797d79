import StrategyCanvas.Proofs.Edit.Session
import StrategyCanvas.Proofs.Finding.Subject

/-!
# Connecting blocks

An editor judges a new connection by itself, and validation judges the strategy that has it. Both
come to the same answer: the refusal of a connection lists what validation would say about it, and
a connection that closes a cycle is one that validation would find on a cycle
(`apply_addConnection_iff`). Of several new connections it does not matter which comes first: they
are accepted one after the other exactly if they do not get in each other's way
(`applyAll_eq_ok_iff`), and that does not depend on their order (`exists_applyAll_of_perm`).
-/

namespace StrategyCanvas

open Relation

/-! ## Adding connections -/

namespace Definition

variable {catalog : Catalog} {d d' : Definition} {c : Connection} {cs cs' : List Connection}

/-- The strategy with more connections. -/
def extend (d : Definition) (cs : List Connection) : Definition :=
  { d with connections := d.connections ++ cs }

theorem extend_extend : (d.extend cs).extend cs' = d.extend (cs ++ cs') := by
  simp [extend]

/-- The errors that a connection draws decide between refusal and the check for cycles. -/
theorem connect_eq_ok_iff : d.connect c = .ok d' ↔ c.IsAdmissible d.blocks d.connections
    ∧ d.wouldCloseCycle c.sourceBlockId c.targetBlockId = false ∧ d' = d.extend [c] := by
  rw [← Connection.errors_eq_nil_iff]
  exact connect_eq_ok_iff_findings

theorem connect_eq_rejected_iff {findings : List Finding} :
    d.connect c = .error (.connectionRejected findings)
      ↔ findings = (c.findings d.blocks d.connections).filter (·.isError) ∧ findings ≠ [] := by
  rw [connect]
  generalize (c.findings d.blocks d.connections).filter (·.isError) = errors
  cases errors with
  | cons f fs =>
    simp only [List.isEmpty_cons, Bool.not_false, if_true, Except.error.injEq,
      EditError.connectionRejected.injEq]
    constructor
    · rintro rfl
      exact ⟨rfl, List.cons_ne_nil f fs⟩
    · rintro ⟨rfl, -⟩
      rfl
  | nil =>
    cases d.wouldCloseCycle c.sourceBlockId c.targetBlockId <;> simp

/-- An id that is new leaves the connection itself to be judged. -/
theorem apply_addConnection {id source output target input : String}
    (new : id ∉ d.connections.map (·.id)) :
    d.apply catalog (.addConnection id source output target input)
      = d.connect (d.draw id source output target input) := by
  rw [apply, connection?_eq_none_iff.mpr new]
  rfl

/-! ## Closing cycles -/

/-- One of the connections leads from the one position to the other. -/
def Leads (d : Definition) (cs : List Connection) (i j : Fin d.blockIds.length) : Prop :=
  Flow.Links d.blockIds (cs.map (·.ends)) i j

theorem leads_append {i j : Fin d.blockIds.length} :
    d.Leads (cs ++ cs') i j ↔ d.Leads cs i j ∨ d.Leads cs' i j := by
  simp only [Leads, Flow.Links, List.map_append, List.mem_append, or_and_right, exists_or]

theorem leads_singleton {s t i j : Fin d.blockIds.length}
    (start : Flow.IsLast d.blockIds c.sourceBlockId s)
    (stop : Flow.IsLast d.blockIds c.targetBlockId t) : d.Leads [c] i j ↔ i = s ∧ j = t := by
  constructor
  · rintro ⟨e, mem, first, last⟩
    obtain rfl := List.mem_singleton.mp mem
    exact ⟨first.unique start, last.unique stop⟩
  · rintro ⟨rfl, rfl⟩
    exact ⟨c.ends, List.mem_cons_self, start, stop⟩

theorem edge_flow : d.flow.Edge = d.Leads d.connections := by
  funext i j
  exact propext Flow.edge_ofIds

theorem wouldCloseCycle_iff_leads {source target : String} :
    d.wouldCloseCycle source target = true ↔ source = target
      ∨ ∃ s t, Flow.IsLast d.blockIds source s ∧ Flow.IsLast d.blockIds target t
        ∧ ReflTransGen (d.Leads d.connections) t s := by
  rw [← edge_flow]
  exact wouldCloseCycle_iff

/-- A strategy has the same positions when it has more connections. -/
theorem wouldCloseCycle_extend_iff {source target : String} :
    (d.extend cs).wouldCloseCycle source target = true ↔ source = target
      ∨ ∃ s t, Flow.IsLast d.blockIds source s ∧ Flow.IsLast d.blockIds target t
        ∧ ReflTransGen (d.Leads (d.connections ++ cs)) t s :=
  wouldCloseCycle_iff_leads (d := d.extend cs)

/-- The ends of an admissible connection have positions of their own. -/
theorem exists_isLast_of_isAdmissible (h : c.IsAdmissible d.blocks d.connections) :
    c.sourceBlockId ≠ c.targetBlockId ∧ ∃ s t, Flow.IsLast d.blockIds c.sourceBlockId s
      ∧ Flow.IsLast d.blockIds c.targetBlockId t := by
  obtain ⟨sourceMem, targetMem⟩ := h.ends_mem
  obtain ⟨s, start⟩ := Flow.exists_isLast sourceMem
  obtain ⟨t, stop⟩ := Flow.exists_isLast targetMem
  exact ⟨h.ends_ne, s, t, start, stop⟩

/-- In a strategy without cycles, the walk back that an editor looks for is the only way in which a
new connection can come to lie on a cycle. -/
theorem hasCycle_extend (acyclic : IsAcyclic d.flow.Edge)
    (admissible : c.IsAdmissible d.blocks d.connections) :
    (d.extend [c]).hasCycle = d.wouldCloseCycle c.sourceBlockId c.targetBlockId := by
  obtain ⟨others, s, t, start, stop⟩ := exists_isLast_of_isAdmissible admissible
  have back : d.wouldCloseCycle c.sourceBlockId c.targetBlockId = true
      ↔ ReflTransGen (d.Leads d.connections) t s := by
    rw [wouldCloseCycle_iff_leads, or_iff_right others]
    constructor
    · rintro ⟨s', t', start', stop', walk⟩
      rwa [start.unique start', stop.unique stop']
    · exact fun walk => ⟨s, t, start, stop, walk⟩
  -- the edges afterwards are those of before and the one of the connection
  have edges (i j : Fin d.blockIds.length) : (d.extend [c]).flow.Edge i j
      ↔ d.Leads d.connections i j ∨ i = s ∧ j = t := by
    rw [← leads_singleton start stop, ← leads_append, edge_flow]
    rfl
  rw [edge_flow] at acyclic
  rw [Bool.eq_iff_iff, ← not_iff_not, back, Bool.not_eq_true, hasCycle,
    Flow.hasCycle_eq_false_iff]
  constructor
  · intro none walk
    have lifted : ReflTransGen (d.extend [c]).flow.Edge t s :=
      ReflTransGen.mono (fun i j edge => (edges i j).mpr (.inl edge)) _ _ walk
    exact none s (TransGen.head' ((edges s t).mpr (.inr ⟨rfl, rfl⟩)) lifted)
  · intro none
    exact (acyclic.insert none).mono fun i j edge => (edges i j).mp edge

end Definition

/-! ## What validation says about a new connection -/

namespace Definition

variable {catalog : Catalog} {d : Definition} {c : Connection} {id : String}

/-- What is wrong with a strategy that has one more connection, as far as it is about that
connection, is what is wrong with the connection itself. -/
theorem filter_defects_extend (canvas : d.blocks ≠ []) (new : c.id ∉ d.connections.map (·.id)) :
    (d.extend [c]).defects.filter (·.connectionId? = some c.id) = c.defects d.blocks d.connections
    := by
  -- the connections of before have other ids
  have others : d.connectionDefects.filter (·.connectionId? = some c.id) = [] := by
    rw [List.filter_eq_nil_iff]
    intro f mem
    obtain ⟨front, e, back, split, here⟩ := mem_collectInOrder_iff.mp mem
    have known : e ∈ d.connections := by simp [split]
    rw [Connection.connectionId?_of_mem_defects here, decide_eq_true_eq, Option.some.injEq]
    exact fun same => new (same ▸ List.mem_map_of_mem known)
  have own : (c.defects d.blocks d.connections).filter (·.connectionId? = some c.id)
      = c.defects d.blocks d.connections := by
    rw [List.filter_eq_self]
    intro f mem
    simp [Connection.connectionId?_of_mem_defects mem]
  have connections : (d.extend [c]).connectionDefects
      = d.connectionDefects ++ c.defects d.blocks d.connections := by
    simp [connectionDefects, extend, collectInOrder_append, collectInOrder]
  have canvas' : (d.extend [c]).blocks ≠ [] := canvas
  have chosen : (d.extend [c]).defects.filter (·.connectionId? = some c.id)
      = (d.extend [c]).connectionDefects.filter (·.connectionId? = some c.id) :=
    filter_defects_by_connection canvas' (· = some c.id) (by simp)
  rw [chosen, connections, List.filter_append, others, own, List.nil_append]

/-- The errors about a new connection, as validation reports them. -/
theorem filter_errors_extend (canvas : d.blocks ≠ []) (new : c.id ∉ d.connections.map (·.id)) :
    (d.extend [c]).report.errors.filter (·.connectionId = some c.id)
      = (c.findings d.blocks d.connections).filter (·.isError) := by
  rw [Report.errors, List.filter_comm, report, findings, List.filter_map, Connection.findings_eq,
    ← filter_defects_extend canvas new]
  simp [Function.comp_def]

theorem hasCycle_report (canvas : d.blocks ≠ []) : d.report.hasCycle = d.hasCycle := by
  have code : ∀ f : Defect, f.code = .circularDependency ↔ f = .circularDependency := by
    intro f
    cases f <;> simp [Defect.code]
  have reported : d.report.hasCycle = true ↔ d.HasDefect .circularDependency := by
    simp [Report.hasCycle, Report.hasCode, report, findings, code, mem_defects_iff]
  rw [Bool.eq_iff_iff, reported]
  constructor
  · intro defect
    cases defect with
    | circle _ cycle => exact cycle
    | block _ here =>
      rcases Block.code_of_mem_defects here with code | ⟨p, -, found⟩
      · contradiction
      · rcases Property.code_of_defect? found with code | code | code | ⟨code, -⟩ <;> contradiction
    | connection _ _ here =>
      have about := Connection.connectionId?_of_mem_defects here
      contradiction
    | flow _ mem =>
      rcases code_of_mem_flowDefects mem with code | code | code <;> contradiction
  · exact .circle canvas

/-- The answer of an editor to a new connection, in a strategy without cycles, is that of validation
to the strategy that has the connection: it is accepted exactly if there is no error about it and no
cycle, and refused with the errors about it otherwise, if there are any. -/
theorem apply_addConnection_iff (canvas : d.blocks ≠ []) (acyclic : IsAcyclic d.flow.Edge)
    (new : id ∉ d.connections.map (·.id)) (catalog : Catalog)
    (source output target input : String) :
    let answer := d.apply catalog (.addConnection id source output target input)
    let next := d.extend [d.draw id source output target input]
    let complaints := next.report.errors.filter (·.connectionId = some id)
    (∀ d', answer = .ok d' ↔ complaints = [] ∧ next.report.hasCycle = false ∧ d' = next)
      ∧ ∀ findings, answer = .error (.connectionRejected findings)
        ↔ findings = complaints ∧ findings ≠ [] := by
  intro answer next complaints
  have judged : answer = d.connect (d.draw id source output target input) :=
    apply_addConnection new
  have errors : complaints = ((d.draw id source output target input).findings d.blocks
      d.connections).filter (·.isError) := filter_errors_extend (c := d.draw ..) canvas new
  have circular : next.report.hasCycle = next.hasCycle := hasCycle_report canvas
  rw [judged, errors, circular]
  refine ⟨fun d' => ?_, fun findings => connect_eq_rejected_iff⟩
  rw [connect_eq_ok_iff, Connection.errors_eq_nil_iff]
  refine and_congr_right fun admissible => ?_
  rw [hasCycle_extend acyclic admissible]

/-- A connection back is sound by itself and refused for its cycle, a second one forth is refused
for what validation says about it. -/
theorem apply_addConnection_pair : pair.blocks ≠ [] ∧ IsAcyclic pair.flow.Edge
    ∧ "c2" ∉ pair.connections.map (·.id)
    ∧ (∀ d', pair.apply ⟨[]⟩ (.addConnection "c2" "b" "b:out:value" "a" "a:in:source") ≠ .ok d')
    ∧ pair.apply ⟨[]⟩ (.addConnection "c2" "a" "a:out:value" "b" "b:in:source")
      = .error (.connectionRejected [(Finding.error .duplicateConnection
        "'Fast.Value' is already connected to 'Slow.Source'").onConnection "c2"]) := by
  have canvas : pair.blocks ≠ [] := by simp [pair]
  have acyclic : IsAcyclic pair.flow.Edge := Flow.hasCycle_eq_false_iff.mp (by decide +kernel)
  have new : "c2" ∉ pair.connections.map (·.id) := by decide
  refine ⟨canvas, acyclic, new, fun d' accepted => ?_, ?_⟩
  · have back := (apply_addConnection_iff canvas acyclic new ⟨[]⟩ "b" "b:out:value" "a"
      "a:in:source").1 d'
    have cycle : (pair.extend [pair.draw "c2" "b" "b:out:value" "a" "a:in:source"]).report.hasCycle
        = true := by decide +kernel
    rw [back, cycle] at accepted
    exact absurd accepted.2.1 (by decide)
  · refine ((apply_addConnection_iff canvas acyclic new ⟨[]⟩ "a" "a:out:value" "b"
      "b:in:source").2 _).mpr ⟨?_, by decide⟩
    decide +kernel

end Definition

end StrategyCanvas
