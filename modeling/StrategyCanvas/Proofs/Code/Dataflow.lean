import StrategyCanvas.Proofs.Code.ConnectionLocations

/-!
# Values are written before they are read

Updates stand in the code in the order in which blocks run, and no block runs before one that feeds
it (`Compiles.pairwise_updateLines`). So along every connection the update of the source stands
above that of the target (`Compiles.line_lt`), with all that is read there.
-/

namespace StrategyCanvas

/-- No block of a sound strategy feeds itself. -/
theorem Definition.IsSound.not_feeds_self {d : Definition} (sound : d.IsSound) {id : String}
    (mem : id ∈ d.blockIds) : ¬ d.Feeds id id := by
  intro feeds
  obtain ⟨i, last⟩ := Flow.exists_isLast mem
  exact sound.acyclic i (.single (edge_of_feeds feeds last last))

namespace Code

/-- Of two members of a list in which a relation holds from front to back, it holds one way or the
other, unless they are one. -/
theorem rel_or_rel_of_pairwise {α : Type} {r : α → α → Prop} {as : List α} (h : as.Pairwise r)
    {a b : α} (ha : a ∈ as) (hb : b ∈ as) : a = b ∨ r a b ∨ r b a := by
  obtain ⟨i, hi, rfl⟩ := List.getElem_of_mem ha
  obtain ⟨j, hj, rfl⟩ := List.getElem_of_mem hb
  rw [List.pairwise_iff_getElem] at h
  rcases Nat.lt_trichotomy i j with less | rfl | less
  · exact .inr (.inl (h i j hi hj less))
  · exact .inl rfl
  · exact .inr (.inr (h j i hj hi less))

namespace Compiles

variable {o : Options} {catalog : Catalog} {d : Definition} {compiled : Compiled}
  {plans : List BlockPlan} {es : List Emission}

/-- No update stands above that of a block that feeds it. -/
theorem pairwise_updateLines (h : Compiles o catalog d compiled plans es) :
    ((o.program d es).updateLines o.indent).Pairwise fun x y =>
      x.2.number < y.2.number ∧ ¬ d.Feeds y.1.blockId x.1.blockId := by
  have own (e : Emission) : ∀ x ∈ e.updateTexts, x.1.blockId = e.blockId := by
    simp [Emission.updateTexts]
  have texts : (es.flatMap (·.updateTexts)).Pairwise fun x y =>
      ¬ d.Feeds y.1.blockId x.1.blockId := by
    rw [List.pairwise_flatMap]
    constructor
    · -- within an update there is one block only, which does not feed itself
      intro e known
      refine List.pairwise_of_forall_mem_list fun x hx y hy => ?_
      rw [own e x hx, own e y hy]
      exact h.sound.not_feeds_self (h.arranged.perm.mem_iff.mp (List.mem_map_of_mem known))
    · refine h.arranged.forward.imp fun {e e'} none x hx y hy => ?_
      rw [own e x hx, own e' y hy]
      exact none
  have feeds : ((o.program d es).updateLines o.indent).Pairwise fun x y =>
      ¬ d.Feeds y.1.blockId x.1.blockId := by
    have lines := Program.map_updateLines (o.program d es) o.indent
    rw [Options.program] at lines
    rw [← lines, List.pairwise_map] at texts
    exact texts
  exact ((Program.pairwise_markedLines _ _).filter _).and feeds

/-- The update of the source of a connection stands above that of the target. -/
theorem line_lt (h : Compiles o catalog d compiled plans es) {source target : String}
    (feeds : d.Feeds source target) {s t : Location}
    (hs : s ∈ compiled.sourceMap.blockLocations source) (written : s.part = .update)
    (ht : t ∈ compiled.sourceMap.blockLocations target) (read : t.part = .update) :
    s.line < t.line := by
  have known := h.mem_blockIds hs
  rw [h.sourceMap_eq] at hs ht
  obtain ⟨m, l, marked, rfl, rfl⟩ := Program.mem_blockLocations_iff.mp hs
  obtain ⟨m', l', marked', rfl, rfl⟩ := Program.mem_blockLocations_iff.mp ht
  have update : (m, l) ∈ (o.program d es).updateLines o.indent :=
    List.mem_filter.mpr ⟨marked, decide_eq_true written⟩
  have update' : (m', l') ∈ (o.program d es).updateLines o.indent :=
    List.mem_filter.mpr ⟨marked', decide_eq_true read⟩
  rcases rel_or_rel_of_pairwise h.pairwise_updateLines update update' with same | above | below
  · obtain ⟨rfl, -⟩ := Prod.mk.inj same
    exact absurd feeds (h.sound.not_feeds_self known)
  · exact above.1
  · exact absurd feeds below.2

end Compiles

/-- The blocks of a compiled strategy run in an order of all of them, in which along every
connection the lines that update the source stand above those that update the target. What is
recorded of a connection is in the update of its target, so that what is read there has been
written. -/
theorem updates_follow_connections {o : Options} {catalog : Catalog} {d : Definition}
    {compiled : Compiled} (h : compile o catalog d = .ok compiled) :
    compiled.executionOrder.Perm d.blockIds
    ∧ (∀ c ∈ d.connections,
        ∀ s ∈ compiled.sourceMap.blockLocations c.sourceBlockId, s.part = .update →
        ∀ t ∈ compiled.sourceMap.blockLocations c.targetBlockId, t.part = .update →
          s.line < t.line)
    ∧ ∀ id, ∀ place ∈ compiled.sourceMap.connectionLocations id, ∃ c ∈ d.connections, c.id = id
        ∧ compiled.sourceMap.InUpdate c.targetBlockId place
        ∧ ∀ s ∈ compiled.sourceMap.blockLocations c.sourceBlockId, s.part = .update →
          s.line < place.line := by
  obtain ⟨plans, es, comp⟩ := exists_compiles h
  refine ⟨?_, fun c mem s hs written t ht read => ?_, fun id place mem => ?_⟩
  · rw [comp.result]
    exact comp.arranged.perm
  · exact comp.line_lt ⟨c, mem, rfl, rfl⟩ hs written ht read
  · rw [comp.sourceMap_eq, SourceMap.connectionLocations, Program.connections_sourceMap,
      SourceMap.getD_lookup_group] at mem
    obtain ⟨⟨id, place⟩, marked, rfl⟩ := List.mem_map.mp mem
    obtain ⟨listed, same⟩ := List.mem_filter.mp marked
    obtain rfl := of_decide_eq_true same
    obtain ⟨c, known, sameId, part, t, ht, read, line⟩ := comp.exists_of_mem_places listed
    refine ⟨c, known, sameId, ⟨part, t, ht, read, line⟩, fun s hs written => ?_⟩
    rw [← line]
    exact comp.line_lt ⟨c, known, rfl, rfl⟩ hs written ht read

/-- The price is updated before the log, although the log comes first in the drawing. -/
theorem updates_priceLog : ∃ compiled, compile .default ⟨[]⟩ priceLog = .ok compiled
    ∧ compiled.executionOrder.Perm ["log\n", "feed"]
    ∧ ∀ s ∈ compiled.sourceMap.blockLocations "feed", s.part = .update →
      ∀ t ∈ compiled.sourceMap.blockLocations "log\n", t.part = .update → s.line < t.line := by
  obtain ⟨compiled, h⟩ := isOk_compile_priceLog
  obtain ⟨order, above, -⟩ := updates_follow_connections h
  have connected : ⟨"price", "feed", "feed:out:price", "log\n", "log:in:value", .number⟩
      ∈ priceLog.connections := List.mem_cons_of_mem _ List.mem_cons_self
  exact ⟨compiled, h, order, above _ connected⟩

end Code

end StrategyCanvas
