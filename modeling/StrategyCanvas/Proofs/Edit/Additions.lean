import StrategyCanvas.Proofs.Edit.Connecting
import StrategyCanvas.Proofs.Step

/-!
# Adding connections in any order

Connections are accepted one after the other exactly if all of them together can be accommodated:
their ids are new, each is admissible beside those that are there, no two of them join the same
ports, and none of them closes a cycle in the strategy that has them all (`applyAll_eq_ok_iff`).
Nothing of this depends on their order, so whatever is accepted in one order is accepted in every
order, with the same connections (`exists_applyAll_of_perm`).
-/

namespace StrategyCanvas

open Relation

namespace Connection

variable {c : Connection} {blocks : List Block} {existing more : List Connection}

theorem sameEndpoints_comm {c c' : Connection} : c.sameEndpoints c' = c'.sameEndpoints c := by
  simp only [sameEndpoints, eq_comm]

theorem isAdmissible_append_iff : c.IsAdmissible blocks (existing ++ more)
    ↔ c.IsAdmissible blocks existing ∧ c.isRepeated more = false := by
  have repeated : c.isRepeated (existing ++ more) = false
      ↔ c.isRepeated existing = false ∧ c.isRepeated more = false := by
    rw [isRepeated, List.any_append, Bool.or_eq_false_iff]
    rfl
  simp only [IsAdmissible, repeated]
  constructor
  · rintro ⟨source, target, output, input, resolves, others, ⟨here, there⟩, fits⟩
    exact ⟨⟨source, target, output, input, resolves, others, here, fits⟩, there⟩
  · rintro ⟨⟨source, target, output, input, resolves, others, here, fits⟩, there⟩
    exact ⟨source, target, output, input, resolves, others, ⟨here, there⟩, fits⟩

/-- A connection with another id is repeated if it joins the same ports. -/
theorem isRepeated_singleton {c' : Connection} (distinct : c'.id ≠ c.id) :
    c.isRepeated [c'] = c'.sameEndpoints c := by
  simp [isRepeated, distinct]

end Connection

namespace Definition

variable {catalog : Catalog} {d d' : Definition} {c : Connection} {cs cs' : List Connection}
  {edits edits' : List Edit}

/-! ## Room for connections -/

/-- A strategy has room for connections: all of them together break no rule and close no cycle. -/
structure Accommodates (d : Definition) (cs : List Connection) : Prop where
  ids : (cs.map (·.id)).Nodup
  new : ∀ c ∈ cs, c.id ∉ d.connections.map (·.id)
  admissible : ∀ c ∈ cs, c.IsAdmissible d.blocks d.connections
  apart : cs.Pairwise fun c c' => c.sameEndpoints c' = false
  free : ∀ c ∈ cs, (d.extend cs).wouldCloseCycle c.sourceBlockId c.targetBlockId = false

/-- With more connections there are more walks. -/
theorem wouldCloseCycle_mono (subset : cs ⊆ cs') {source target : String}
    (h : (d.extend cs').wouldCloseCycle source target = false) :
    (d.extend cs).wouldCloseCycle source target = false := by
  rw [Bool.eq_false_iff, ne_eq, wouldCloseCycle_extend_iff] at h ⊢
  refine mt (Or.imp_right ?_) h
  rintro ⟨s, t, start, stop, walk⟩
  refine ⟨s, t, start, stop, ReflTransGen.mono (fun i j edge => ?_) _ _ walk⟩
  obtain ⟨e, mem, ends⟩ := edge
  have kept : d.connections ++ cs ⊆ d.connections ++ cs' :=
    List.append_subset.mpr
      ⟨List.subset_append_left .., fun e mem => List.mem_append_right _ (subset mem)⟩
  exact ⟨e, List.map_subset _ kept mem, ends⟩

/-- A connection that closes no cycle when it comes first closes none in the end, if those that come
after it do not either. -/
theorem wouldCloseCycle_extend_cons
    (first : d.wouldCloseCycle c.sourceBlockId c.targetBlockId = false)
    (others : ∀ e ∈ cs,
      (d.extend (c :: cs)).wouldCloseCycle e.sourceBlockId e.targetBlockId = false) :
    (d.extend (c :: cs)).wouldCloseCycle c.sourceBlockId c.targetBlockId = false := by
  by_contra closes
  rw [Bool.not_eq_false, wouldCloseCycle_extend_iff] at closes
  rcases closes with same | ⟨s, t, start, stop, walk⟩
  · have closed : d.wouldCloseCycle c.sourceBlockId c.targetBlockId = true :=
      wouldCloseCycle_iff_leads.mpr (.inl same)
    rw [first] at closed
    contradiction
  · -- the walk back keeps to what was there before, or passes one of those that come after
    have parts (i j : Fin d.blockIds.length) : d.Leads (d.connections ++ c :: cs) i j
        ↔ (d.Leads d.connections i j ∨ i = s ∧ j = t) ∨ d.Leads cs i j := by
      rw [← leads_singleton start stop, ← leads_append, ← leads_append, List.append_assoc]
      rfl
    have walk' := ReflTransGen.mono (fun i j edge => (parts i j).mp edge) _ _ walk
    rcases reflTransGen_or walk' with before | ⟨i, j, edge, toStart, fromEnd⟩
    · have closed : d.wouldCloseCycle c.sourceBlockId c.targetBlockId = true :=
        wouldCloseCycle_iff_leads.mpr (.inr ⟨s, t, start, stop, reflTransGen_of_insert before⟩)
      rw [first] at closed
      contradiction
    · obtain ⟨e, mem, here, there⟩ := edge
      obtain ⟨later, known, rfl⟩ := List.mem_map.mp mem
      -- from the end of the later one the walk goes on, over the new edge, to its start
      have back := (fromEnd.tail (.inl (.inr ⟨rfl, rfl⟩))).trans toStart
      have closed : (d.extend (c :: cs)).wouldCloseCycle later.sourceBlockId later.targetBlockId
          = true :=
        wouldCloseCycle_extend_iff.mpr (.inr ⟨i, j, here, there,
          ReflTransGen.mono (fun a b edge => (parts a b).mpr edge) _ _ back⟩)
      rw [others later known] at closed
      contradiction

/-- There is room for connections if the first is accepted and there is room for the others behind
it. -/
theorem accommodates_cons_iff : d.Accommodates (c :: cs)
    ↔ c.id ∉ d.connections.map (·.id)
      ∧ (c.IsAdmissible d.blocks d.connections
        ∧ d.wouldCloseCycle c.sourceBlockId c.targetBlockId = false)
      ∧ (d.extend [c]).Accommodates cs := by
  have start : d.extend [] = d := by simp [extend]
  have whole : (d.extend [c]).extend cs = d.extend (c :: cs) := extend_extend
  constructor
  · intro h
    obtain ⟨first, ids⟩ := List.nodup_cons.mp h.ids
    obtain ⟨different, apart⟩ := List.pairwise_cons.mp h.apart
    have distinct : ∀ e ∈ cs, c.id ≠ e.id := fun e mem same =>
      first (List.mem_map.mpr ⟨e, mem, same.symm⟩)
    refine ⟨h.new c List.mem_cons_self, ⟨h.admissible c List.mem_cons_self, ?_⟩,
      ids, fun e mem => ?_, fun e mem => ?_, apart, fun e mem => ?_⟩
    · rw [← start]
      exact wouldCloseCycle_mono (List.nil_subset _) (h.free c List.mem_cons_self)
    · have old := h.new e (List.mem_cons_of_mem c mem)
      have other := distinct e mem
      simp only [extend, List.map_append, List.mem_append, not_or]
      exact ⟨old, by simpa using Ne.symm other⟩
    · refine Connection.isAdmissible_append_iff.mpr
        ⟨h.admissible e (List.mem_cons_of_mem c mem), ?_⟩
      rw [Connection.isRepeated_singleton (distinct e mem)]
      exact different e mem
    · rw [whole]
      exact h.free e (List.mem_cons_of_mem c mem)
  · rintro ⟨new, ⟨admissible, first⟩, h⟩
    have later : ∀ e ∈ cs, e.id ∉ d.connections.map (·.id) ∧ c.id ≠ e.id := by
      intro e mem
      have fresh := h.new e mem
      simp only [extend, List.map_append, List.mem_append, not_or] at fresh
      exact ⟨fresh.1, by simpa [eq_comm] using fresh.2⟩
    have others : ∀ e ∈ cs, e.IsAdmissible d.blocks d.connections ∧ c.sameEndpoints e = false := by
      intro e mem
      obtain ⟨alone, single⟩ := Connection.isAdmissible_append_iff.mp (h.admissible e mem)
      rw [Connection.isRepeated_singleton (later e mem).2] at single
      exact ⟨alone, single⟩
    have free := h.free
    rw [whole] at free
    refine ⟨List.nodup_cons.mpr ⟨fun mem => ?_, h.ids⟩,
      List.forall_mem_cons.mpr ⟨new, fun e mem => (later e mem).1⟩,
      List.forall_mem_cons.mpr ⟨admissible, fun e mem => (others e mem).1⟩,
      List.pairwise_cons.mpr ⟨fun e mem => (others e mem).2, h.apart⟩,
      List.forall_mem_cons.mpr ⟨wouldCloseCycle_extend_cons first free, free⟩⟩
    obtain ⟨e, known, same⟩ := List.mem_map.mp mem
    exact (later e known).2 same.symm

/-- Room for connections does not depend on their order. -/
theorem Accommodates.of_perm (h : d.Accommodates cs) (perm : cs'.Perm cs) : d.Accommodates cs' where
  ids := (perm.map _).nodup_iff.mpr h.ids
  new c mem := h.new c (perm.mem_iff.mp mem)
  admissible c mem := h.admissible c (perm.mem_iff.mp mem)
  apart := (perm.pairwise_iff fun apart => by rwa [Connection.sameEndpoints_comm]).mpr h.apart
  free c mem := wouldCloseCycle_mono perm.subset (h.free c (perm.mem_iff.mp mem))

/-! ## Edits one after the other -/

/-- The state after edits that are all accepted, one after the other, or the first refusal. -/
def applyAll (d : Definition) (catalog : Catalog) (edits : List Edit) :
    Except EditError Definition :=
  edits.foldlM (fun d e => d.apply catalog e) d

/-- The connection that an edit adds, if that is what it does. -/
def drawn? (d : Definition) : Edit → Option Connection
  | .addConnection id source output target input => some (d.draw id source output target input)
  | _ => none

/-- What is drawn depends on the blocks alone. -/
theorem drawn?_extend : (d.extend cs).drawn? = d.drawn? := by
  funext e
  cases e <;> rfl

theorem apply_eq_ok_iff_of_drawn? {e : Edit} (drawn : d.drawn? e = some c) :
    d.apply catalog e = .ok d' ↔ c.id ∉ d.connections.map (·.id)
      ∧ (c.IsAdmissible d.blocks d.connections
        ∧ d.wouldCloseCycle c.sourceBlockId c.targetBlockId = false) ∧ d' = d.extend [c] := by
  cases e with
  | addConnection id source output target input =>
    obtain rfl := Option.some.inj drawn
    rw [apply_addConnection_eq_ok_iff, connection?_eq_none_iff, connect_eq_ok_iff, and_assoc]
    rfl
  | addBlock | moveBlock | resizeBlock | deleteBlock | deleteConnection | updateProperty
  | renameStrategy | setTags => contradiction

/-- Connections are accepted one after the other exactly if there is room for all of them, and then
they are added in their order. -/
theorem applyAll_eq_ok_iff (additions : ∀ e ∈ edits, (d.drawn? e).isSome) :
    d.applyAll catalog edits = .ok d' ↔ d.Accommodates (edits.filterMap d.drawn?)
      ∧ d' = d.extend (edits.filterMap d.drawn?) := by
  induction edits generalizing d with
  | nil =>
    have room : d.Accommodates [] := ⟨List.nodup_nil, by simp, by simp, .nil, by simp⟩
    have same : d.extend [] = d := by simp [extend]
    rw [List.filterMap_nil, same]
    constructor
    · intro h
      exact ⟨room, (Except.ok.inj h).symm⟩
    · rintro ⟨-, rfl⟩
      rfl
  | cons e rest ih =>
    obtain ⟨addition, additions⟩ := List.forall_mem_cons.mp additions
    obtain ⟨c, drawn⟩ := Option.isSome_iff_exists.mp addition
    have step : d.applyAll catalog (e :: rest)
        = d.apply catalog e >>= fun next => next.applyAll catalog rest := rfl
    have later := ih (d := d.extend [c]) (by rwa [drawn?_extend])
    rw [drawn?_extend, extend_extend] at later
    rw [List.filterMap_cons_some drawn, step, bind_eq_ok_iff, accommodates_cons_iff]
    constructor
    · rintro ⟨next, accepted, others⟩
      obtain ⟨new, sound, rfl⟩ := (apply_eq_ok_iff_of_drawn? drawn).mp accepted
      obtain ⟨room, result⟩ := later.mp others
      exact ⟨⟨new, sound, room⟩, result⟩
    · rintro ⟨⟨new, sound, room⟩, result⟩
      exact ⟨_, (apply_eq_ok_iff_of_drawn? drawn).mpr ⟨new, sound, rfl⟩,
        later.mpr ⟨room, result⟩⟩

/-- Connections that are accepted one after the other are accepted in every order, and the
strategies that result differ in the order of the new connections alone. -/
theorem exists_applyAll_of_perm (additions : ∀ e ∈ edits, (d.drawn? e).isSome)
    (perm : edits'.Perm edits) (accepted : d.applyAll catalog edits = .ok d') :
    ∃ added added', added'.Perm added
      ∧ d' = { d with connections := d.connections ++ added }
      ∧ d.applyAll catalog edits' = .ok { d with connections := d.connections ++ added' } := by
  obtain ⟨room, result⟩ := (applyAll_eq_ok_iff additions).mp accepted
  have drawn := perm.filterMap d.drawn?
  refine ⟨edits.filterMap d.drawn?, edits'.filterMap d.drawn?, drawn, result, ?_⟩
  exact (applyAll_eq_ok_iff fun e mem => additions e (perm.mem_iff.mp mem)).mpr
    ⟨room.of_perm drawn, rfl⟩

/-- A third block that the first two can feed. -/
def triple : Definition :=
  { pair with
    blocks := pair.blocks ++ [{ id := "c", type := "math", category := .math, name := "Sum"
                                description := "", position := .origin, size := .usual
                                inputs := [⟨"c:in:a", "A", .number, true⟩,
                                  ⟨"c:in:b", "B", .number, false⟩]
                                outputs := [⟨"c:out:result", "Result", .number⟩]
                                properties := [] }] }

/-- A sound connection that leaves a strategy without cycles is accepted. -/
theorem apply_of_hasCycle {e : Edit} (drawn : d.drawn? e = some c)
    (new : c.id ∉ d.connections.map (·.id))
    (sound : (c.findings d.blocks d.connections).filter (·.isError) = [])
    (before : d.hasCycle = false) (after : (d.extend [c]).hasCycle = false) :
    d.apply catalog e = .ok (d.extend [c]) := by
  have admissible := Connection.errors_eq_nil_iff.mp sound
  have acyclic : IsAcyclic d.flow.Edge := Flow.hasCycle_eq_false_iff.mp before
  rw [hasCycle_extend acyclic admissible] at after
  exact (apply_eq_ok_iff_of_drawn? drawn).mpr ⟨new, ⟨admissible, after⟩, rfl⟩

/-- Two connections into a third block, drawn in either order. -/
theorem exists_applyAll_triple :
    let first := Edit.addConnection "c2" "a" "a:out:value" "c" "c:in:a"
    let second := Edit.addConnection "c3" "b" "b:out:value" "c" "c:in:b"
    [second, first].Perm [first, second]
      ∧ ∃ d', triple.applyAll ⟨[]⟩ [first, second] = .ok d'
        ∧ ∃ d'', triple.applyAll ⟨[]⟩ [second, first] = .ok d''
          ∧ d''.connections.Perm d'.connections := by
  intro first second
  have perm : [second, first].Perm [first, second] := .swap ..
  have start : triple.apply ⟨[]⟩ first = .ok _ :=
    apply_of_hasCycle rfl (by decide) (by decide +kernel) (by decide +kernel) (by decide +kernel)
  have next : (triple.extend [triple.draw "c2" "a" "a:out:value" "c" "c:in:a"]).apply ⟨[]⟩ second
      = .ok _ :=
    apply_of_hasCycle rfl (by decide) (by decide +kernel) (by decide +kernel) (by decide +kernel)
  have accepted : triple.applyAll ⟨[]⟩ [first, second] = .ok _ :=
    bind_eq_ok_iff.mpr ⟨_, start, bind_eq_ok_iff.mpr ⟨_, next, rfl⟩⟩
  obtain ⟨added, added', same, result, other⟩ :=
    exists_applyAll_of_perm (by simp [first, second, drawn?]) perm accepted
  rw [result] at accepted
  exact ⟨perm, _, accepted, _, other, same.append_left _⟩

end Definition

end StrategyCanvas
