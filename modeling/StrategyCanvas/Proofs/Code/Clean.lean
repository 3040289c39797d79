import StrategyCanvas.Proofs.Code.Reordering

/-!
# Connections of clean strategies

Validation tells connections apart by their ids: one with the same id counts as the connection at
hand and is not compared with it. Of a strategy about which nothing is found, connections into one
input therefore have one id. If ids are distinct, every input has one connection at most, and no
connection gives way to another one (`connections_of_findings_eq_nil`), unless two inputs of a block
go by one slug.
-/

namespace StrategyCanvas

namespace Definition

variable {d : Definition}

/-! ## Clean strategies -/

/-- A strategy without blocks is not clean. -/
theorem blocks_ne_nil_of_findings (clean : d.findings = []) : d.blocks ≠ [] := by
  intro none
  have empty : .emptyStrategy ∈ d.defects := (HasDefect.empty none).mem
  rw [List.map_eq_nil_iff.mp clean] at empty
  contradiction

theorem isSound_of_findings (clean : d.findings = []) : d.IsSound := by
  refine isSound_of_hasErrors ?_
  rw [Report.hasErrors, report, clean]
  rfl

/-- In a clean strategy no connection crowds another. -/
theorem pairwise_not_crowds_of_findings (clean : d.findings = []) :
    d.connections.Pairwise fun e c => ¬ c.Crowds e := by
  have silent := connectionDefects_of_findings (blocks_ne_nil_of_findings clean) clean
  exact ((Connection.silent_iff (isSound_of_findings clean).distinct).mp silent).2

/-- In a clean strategy with distinct ids of connections no two of them end at one input. -/
theorem nodup_targetInputId_of_findings (clean : d.findings = [])
    (distinct : (d.connections.map (·.id)).Nodup) :
    (d.connections.map (·.targetInputId)).Nodup := by
  have ids : d.connections.Pairwise fun e c => e.id ≠ c.id := List.pairwise_map.mp distinct
  refine List.pairwise_map.mpr ((ids.and (pairwise_not_crowds_of_findings clean)).imp ?_)
  rintro e c ⟨other, alone⟩ same
  exact alone ⟨other, same⟩

/-! ## Connections that are read -/

/-- Where slugs of inputs are distinct, connections arrive together only at one input. -/
theorem targetInputId_eq_of_arrival? {b : Block} {c e : Connection} {s : String}
    (slugs : (b.inputs.map fun p => Text.slug p.name).Nodup) (arrived : b.arrival? c = some s)
    (arrived' : b.arrival? e = some s) : c.targetInputId = e.targetInputId := by
  obtain ⟨p, found, same⟩ := Option.map_eq_some_iff.mp arrived
  obtain ⟨q, found', same'⟩ := Option.map_eq_some_iff.mp arrived'
  have port : p = q := List.inj_on_of_nodup_map slugs (List.mem_of_find?_eq_some found)
    (List.mem_of_find?_eq_some found') (same.trans same'.symm)
  rw [← key_of_find? found, port, key_of_find? found']

/-- A connection that shares its input with no other is read if the rule of its block reads the
input. -/
theorem isRead_of_nodup_targetInputId (targets : (d.connections.map (·.targetInputId)).Nodup)
    {c : Connection} (mem : c ∈ d.connections) {b : Block} (known : b ∈ d.blocks)
    (target : b.id = c.targetBlockId) (slugs : (b.inputs.map fun p => Text.slug p.name).Nodup)
    {type : BlockType} (parsed : BlockType.ofTag? b.type = some type) {name : String}
    (reads : (Code.Rule.ofType type).Reads (.input name))
    (arrived : b.arrival? c = some (Text.slug name)) : d.IsRead c := by
  refine ⟨b, known, target, type, name, parsed, reads, ?_⟩
  have into : c ∈ (d.incoming b.id).reverse :=
    List.mem_reverse.mpr (List.mem_filter.mpr ⟨mem, by simp [target]⟩)
  cases last : (d.incoming b.id).reverse.find? fun e => b.arrival? e = some (Text.slug name) with
  | none =>
    have absent := List.find?_eq_none.mp last c into
    simp [arrived] at absent
  | some e =>
    have listed : e ∈ d.connections :=
      (List.mem_filter.mp (List.mem_reverse.mp (List.mem_of_find?_eq_some last))).1
    have arrived' : b.arrival? e = some (Text.slug name) := by simpa using List.find?_some last
    have same := targetInputId_eq_of_arrival? slugs arrived' arrived
    rw [List.inj_on_of_nodup_map targets listed mem same]

/-- In a clean strategy connections into one input have one id. If ids of connections are distinct,
no two of them end at one input; and if, besides, no block has two inputs that go by one slug, every
connection into an input that the rule of its block reads is read. -/
theorem connections_of_findings_eq_nil {d : Definition} (clean : d.findings = []) :
    (d.connections.Pairwise fun c e => c.targetInputId = e.targetInputId → c.id = e.id)
    ∧ ((d.connections.map (·.id)).Nodup → (d.connections.map (·.targetInputId)).Nodup
      ∧ ((∀ b ∈ d.blocks, (b.inputs.map fun p => Text.slug p.name).Nodup) →
        ∀ c ∈ d.connections, ∀ b ∈ d.blocks, b.id = c.targetBlockId →
        ∀ type name, BlockType.ofTag? b.type = some type →
        (Code.Rule.ofType type).Reads (.input name) → b.arrival? c = some (Text.slug name) →
        d.IsRead c)) := by
  refine ⟨(pairwise_not_crowds_of_findings clean).imp fun {c e} alone same => ?_,
    fun distinct => ?_⟩
  · by_contra other
    exact alone ⟨other, same⟩
  · have targets := nodup_targetInputId_of_findings clean distinct
    refine ⟨targets, fun slugs c mem b known target type name parsed reads arrived => ?_⟩
    exact isRead_of_nodup_targetInputId targets mem known target (slugs b known) parsed reads
      arrived

end Definition

namespace Code

/-- The logs of a price and of a volume draw no findings, and both connections are read. -/
theorem connections_twoLogs : twoLogs.findings = []
    ∧ (twoLogs.connections.map (·.targetInputId)).Nodup
    ∧ ∀ c ∈ twoLogs.connections, twoLogs.IsRead c := by
  have clean : twoLogs.findings = [] := by decide +kernel
  have distinct : (twoLogs.connections.map (·.id)).Nodup := by decide
  have slugs : ∀ b ∈ twoLogs.blocks, (b.inputs.map fun p => Text.slug p.name).Nodup := by
    decide +kernel
  obtain ⟨-, sole⟩ := Definition.connections_of_findings_eq_nil clean
  obtain ⟨targets, read⟩ := sole distinct
  refine ⟨clean, targets, fun c mem => ?_⟩
  have reads : (Rule.ofType .log).Reads (.input "Value") := .inr (by decide)
  have into : ∃ b ∈ twoLogs.blocks, b.id = c.targetBlockId ∧ BlockType.ofTag? b.type = some .log
      ∧ b.arrival? c = some (Text.slug "Value") := by
    revert c
    decide +kernel
  obtain ⟨b, known, target, parsed, arrived⟩ := into
  exact read slugs c mem b known target .log "Value" parsed reads arrived

/-! ## Connections that give way -/

/-- A strategy that logs a price and a volume through one input, by connections with one id. -/
def twinConnections : Definition :=
  { priceLog with
    blocks := logBlock "log" :: priceLog.blocks.drop 1
    connections := [
      ⟨"c", "feed", "feed:out:price", "log", "log:in:value", .number⟩,
      ⟨"c", "feed", "feed:out:volume", "log", "log:in:value", .number⟩] }

/-- A strategy that logs a price and a volume through two inputs that go by one slug. -/
def twinInputs : Definition :=
  { twinConnections with
    blocks := { logBlock "log" with
      inputs := [⟨"log:in:value", "Value", .any, true⟩, ⟨"log:in:2", "value", .any, true⟩] }
      :: priceLog.blocks.drop 1
    connections := [
      ⟨"price", "feed", "feed:out:price", "log", "log:in:value", .number⟩,
      ⟨"volume", "feed", "feed:out:volume", "log", "log:in:2", .number⟩] }

/-- A strategy that logs a price, with a volume for an input of the log that its rule does not
read. -/
def idleInput : Definition :=
  { twinInputs with
    blocks := { logBlock "log" with
      inputs := [⟨"log:in:value", "Value", .any, true⟩, ⟨"log:in:2", "Extra", .any, true⟩] }
      :: priceLog.blocks.drop 1 }

/-- A connection is not read if the last one into its block arrives where it does. -/
theorem not_isRead_of_last {d : Definition} {c e : Connection}
    (last : (d.incoming c.targetBlockId).getLast? = some e) (other : e ≠ c)
    (together : ∀ b ∈ d.blocks, b.id = c.targetBlockId → b.arrival? e = b.arrival? c) :
    ¬ d.IsRead c := by
  rintro ⟨b, known, target, type, name, -, -, read⟩
  obtain ⟨earlier, into⟩ := List.getLast?_eq_some_iff.mp last
  rw [target, into, List.reverse_append] at read
  have arrived : b.arrival? c = some (Text.slug name) := by simpa using List.find?_some read
  have arrived' : b.arrival? e = some (Text.slug name) := (together b known target).trans arrived
  rw [List.reverse_singleton, List.singleton_append, List.find?_cons_of_pos (by simpa)] at read
  exact other (Option.some.inj read)

/-- A connection is not read if the rule of its block reads no input where it arrives. -/
theorem not_isRead_of_not_reads {d : Definition} {c : Connection}
    (unread : ∀ b ∈ d.blocks, b.id = c.targetBlockId → ∀ type, BlockType.ofTag? b.type = some type →
      ∀ name, (Rule.ofType type).Reads (.input name) → b.arrival? c ≠ some (Text.slug name)) :
    ¬ d.IsRead c := by
  rintro ⟨b, known, target, type, name, parsed, reads, read⟩
  exact unread b known target type parsed name reads (by simpa using List.find?_some read)

/-- A strategy can be clean while a connection gives way: to another one with its id, or to one that
ends at an input with the same slug. It can also end at an input that is not read. -/
theorem connections_twins :
    (twinConnections.findings = []
      ∧ ¬ (twinConnections.connections.map (·.id)).Nodup
      ∧ ¬ (twinConnections.connections.map (·.targetInputId)).Nodup
      ∧ ∃ c ∈ twinConnections.connections, ¬ twinConnections.IsRead c)
    ∧ (twinInputs.findings = []
      ∧ (twinInputs.connections.map (·.id)).Nodup
      ∧ ∃ c ∈ twinInputs.connections, ¬ twinInputs.IsRead c)
    ∧ idleInput.findings = []
      ∧ (idleInput.connections.map (·.id)).Nodup
      ∧ ∃ c ∈ idleInput.connections, ¬ idleInput.IsRead c := by
  refine ⟨⟨by decide +kernel, by decide, by decide, _, List.mem_cons_self, ?_⟩,
    ⟨by decide +kernel, by decide, _, List.mem_cons_self, ?_⟩,
    by decide +kernel, by decide, _, List.mem_cons_of_mem _ List.mem_cons_self, ?_⟩
  · exact not_isRead_of_last rfl (by decide +revert) (by decide +kernel)
  · exact not_isRead_of_last rfl (by decide +revert) (by decide +kernel)
  · have arrives : ∀ b ∈ idleInput.blocks, b.id = "log" → BlockType.ofTag? b.type = some .log
        ∧ b.arrival? ⟨"volume", "feed", "feed:out:volume", "log", "log:in:2", .number⟩
          = some "extra" := by
      decide +kernel
    refine not_isRead_of_not_reads fun b known target type parsed name reads => ?_
    obtain ⟨tag, arrived⟩ := arrives b known target
    obtain rfl := Option.some.inj (parsed.symm.trans tag)
    obtain rfl : name = "Value" := by
      simpa [Rule.ofType, Rule.log, Rule.members] using Rule.mem_members_iff.mpr reads
    rw [arrived]
    decide +kernel

end Code

end StrategyCanvas
