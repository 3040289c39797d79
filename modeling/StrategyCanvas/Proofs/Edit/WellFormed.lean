import StrategyCanvas.Proofs.Document.Lookup
import StrategyCanvas.Proofs.Edit.Session
import StrategyCanvas.Proofs.Finding.Connection
import StrategyCanvas.Proofs.Flow.Cycle

/-!
# Well-formed strategies

Whatever an editor is asked for, the strategy at hand stays well-formed: ids are told apart, every
connection leads from an output of a block to an input of another and carries a kind that fits, no
two connections join the same ports, and the connections form no cycle. Each change of a strategy
keeps this (`IsWellFormed.of_edited`), hence every session does (`isWellFormed_serveAll`).
-/

namespace StrategyCanvas

open Relation

/-! ## The invariant -/

/-- A connection leads from an output of a block to an input of another block, and carries the kind
of the output, which the input takes. -/
def Connection.Fits (c : Connection) (blocks : List Block) : Prop :=
  ∃ source ∈ blocks, ∃ target ∈ blocks, ∃ output input,
    source.id = c.sourceBlockId ∧ target.id = c.targetBlockId ∧ source.id ≠ target.id
    ∧ source.output? c.sourceOutputId = some output ∧ target.input? c.targetInputId = some input
    ∧ c.dataKind = output.dataKind ∧ output.dataKind.feeds input.dataKind = true

/-- What holds of every strategy in an editor. -/
structure Definition.IsWellFormed (d : Definition) : Prop where
  blockIds : (d.blocks.map (·.id)).Nodup
  connectionIds : (d.connections.map (·.id)).Nodup
  fits : ∀ c ∈ d.connections, c.Fits d.blocks
  ends : d.connections.Pairwise fun c c' =>
    ¬ (c.sourceOutputId = c'.sourceOutputId ∧ c.targetInputId = c'.targetInputId)
  acyclic : IsAcyclic d.Feeds

/-! ## Blocks -/

namespace Connection

variable {c : Connection} {blocks blocks' : List Block}

/-- A connection fits other blocks too if its own blocks are among them, with the same ports. -/
theorem Fits.of_kept (h : c.Fits blocks)
    (kept : ∀ b ∈ blocks, c.touches b.id = true →
      ∃ b' ∈ blocks', b'.id = b.id ∧ b'.inputs = b.inputs ∧ b'.outputs = b.outputs) :
    c.Fits blocks' := by
  obtain ⟨source, hs, target, ht, output, input, sourceId, targetId, others, ho, hi, fits⟩ := h
  obtain ⟨source', hs', sid, -, souts⟩ := kept source hs (by simp [touches, sourceId])
  obtain ⟨target', ht', tid, tins, -⟩ := kept target ht (by simp [touches, targetId])
  refine ⟨source', hs', target', ht', output, input, sid.trans sourceId, tid.trans targetId, ?_,
    ?_, ?_, fits⟩
  · rwa [sid, tid]
  · rwa [Block.output?, souts]
  · rwa [Block.input?, tins]

/-- A connection that fits comes from one of the blocks. -/
theorem Fits.source_mem (h : c.Fits blocks) : c.sourceBlockId ∈ blocks.map (·.id) := by
  obtain ⟨source, mem, -, -, -, -, id, -⟩ := h
  exact List.mem_map.mpr ⟨source, mem, id⟩

/-- A connection that fits leads to one of the blocks. -/
theorem Fits.target_mem (h : c.Fits blocks) : c.targetBlockId ∈ blocks.map (·.id) := by
  obtain ⟨-, -, target, mem, -, -, -, id, -⟩ := h
  exact List.mem_map.mpr ⟨target, mem, id⟩

end Connection

namespace Definition

variable {d d' : Definition} {catalog : Catalog}

/-- A new block has the id that it was asked for with. -/
theorem id_of_place {type : BlockType} {blockId : String} {position : Position} {b : Block}
    (h : catalog.place type blockId position = some b) : b.id = blockId := by
  obtain ⟨template, -, rfl⟩ := Option.map_eq_some_iff.mp h
  rfl

/-! ## Walks -/

/-- If a connection closes no cycle, no walk leads back from its target to its source. -/
theorem not_walk_of_wouldCloseCycle (present : ∀ c ∈ d.connections, c.sourceBlockId ∈ d.blockIds)
    {source target : String} (hs : source ∈ d.blockIds) (ht : target ∈ d.blockIds)
    (h : d.wouldCloseCycle source target = false) : ¬ ReflTransGen d.Feeds target source := by
  intro walk
  obtain ⟨s, hs⟩ := Flow.exists_isLast hs
  obtain ⟨t, ht⟩ := Flow.exists_isLast ht
  have closes : d.wouldCloseCycle source target = true :=
    wouldCloseCycle_iff.mpr (.inr ⟨s, t, hs, ht, walk_of_feeds present ht walk hs⟩)
  rw [h] at closes
  contradiction

/-! ## Changes -/

/-- A block with a new id keeps a strategy well formed. -/
theorem IsWellFormed.placed (h : d.IsWellFormed) {b : Block} (new : d.block? b.id = none) :
    { d with blocks := d.blocks ++ [b] }.IsWellFormed := by
  have fresh : b.id ∉ d.blocks.map (·.id) := block?_eq_none_iff.mp new
  refine ⟨?_, h.connectionIds, fun c mem => ?_, h.ends, h.acyclic⟩
  · rw [List.map_append]
    exact h.blockIds.append (List.nodup_singleton _) (by simpa using fresh)
  · refine (h.fits c mem).of_kept fun a ha _ => ⟨a, ?_, rfl, rfl, rfl⟩
    exact List.mem_append_left _ ha

/-- A revised block keeps its id and ports, and so a strategy stays well formed. -/
theorem IsWellFormed.revised (h : d.IsWellFormed) {before after : List Block} {b b' : Block}
    (split : d.blocks = before ++ b :: after) (revised : b.Revised b') :
    { d with blocks := before ++ b' :: after }.IsWellFormed := by
  have ids : (before ++ b' :: after).map (·.id) = d.blocks.map (·.id) := by
    simp [split, revised.id_eq]
  refine ⟨ids ▸ h.blockIds, h.connectionIds, fun c mem => ?_, h.ends, h.acyclic⟩
  refine (h.fits c mem).of_kept fun a ha _ => ?_
  rw [split, List.mem_append, List.mem_cons] at ha
  rcases ha with ha | rfl | ha
  · exact ⟨a, by simp [ha], rfl, rfl, rfl⟩
  · exact ⟨b', by simp, revised.id_eq, revised.inputs_eq, revised.outputs_eq⟩
  · exact ⟨a, by simp [ha], rfl, rfl, rfl⟩

/-- Fewer connections among blocks that still have theirs. -/
theorem IsWellFormed.of_sublist (h : d.IsWellFormed) (blocks : d'.blocks.Sublist d.blocks)
    (connections : d'.connections.Sublist d.connections)
    (kept : ∀ c ∈ d'.connections, ∀ b ∈ d.blocks, c.touches b.id = true → b ∈ d'.blocks) :
    d'.IsWellFormed := by
  refine ⟨h.blockIds.sublist (blocks.map _), h.connectionIds.sublist (connections.map _),
    fun c mem => ?_, h.ends.sublist connections, h.acyclic.mono ?_⟩
  · refine (h.fits c (connections.subset mem)).of_kept fun b hb touched => ?_
    exact ⟨b, kept c mem b hb touched, rfl, rfl, rfl⟩
  · rintro a b ⟨c, mem, ends⟩
    exact ⟨c, connections.subset mem, ends⟩

/-- A block is removed with its connections, so that none is left without an end. -/
theorem IsWellFormed.removed (h : d.IsWellFormed) (blockId : String) :
    (d.removeBlock blockId).IsWellFormed := by
  refine h.of_sublist List.filter_sublist List.filter_sublist fun c mem b hb touched => ?_
  refine List.mem_filter.mpr ⟨hb, ?_⟩
  -- a connection that is left does not touch the removed id
  have apart := (List.mem_filter.mp mem).2
  rw [decide_eq_true_eq]
  rintro rfl
  rw [touched] at apart
  contradiction

/-- Fewer connections keep a strategy well formed. -/
theorem IsWellFormed.disconnected (h : d.IsWellFormed) (id : String) :
    { d with connections := d.connections.filter (·.id ≠ id) }.IsWellFormed :=
  h.of_sublist (List.Sublist.refl _) List.filter_sublist fun _ _ _ hb _ => hb

/-- A new connection that resolves to its ports fits, as it carries the kind of its output. -/
theorem fits_draw {id source output target input : String}
    (h : (d.draw id source output target input).IsAdmissible d.blocks d.connections) :
    (d.draw id source output target input).Fits d.blocks := by
  obtain ⟨s, t, o, i, resolves, others, -, feeds⟩ := h
  have sourceId : s.id = source := key_of_find? resolves.source_found
  have targetId : t.id = target := key_of_find? resolves.target_found
  refine ⟨s, List.mem_of_find?_eq_some resolves.source_found, t,
    List.mem_of_find?_eq_some resolves.target_found, o, i, sourceId, targetId,
    others, resolves.output_found, resolves.input_found, ?_, feeds⟩
  have found : d.block? source = some s := resolves.source_found
  have port : s.output? output = some o := resolves.output_found
  simp [draw, found, port]

/-- A connection that is admissible and closes no cycle keeps a strategy well formed. -/
theorem IsWellFormed.connected (h : d.IsWellFormed) {id source output target input : String}
    (new : d.connection? id = none)
    (admissible : (d.draw id source output target input).IsAdmissible d.blocks d.connections)
    (free : d.wouldCloseCycle source target = false) :
    { d with connections := d.connections ++ [d.draw id source output target input] }.IsWellFormed
    := by
  have fits := fits_draw admissible
  have fresh : id ∉ d.connections.map (·.id) := connection?_eq_none_iff.mp new
  have present : ∀ c ∈ d.connections, c.sourceBlockId ∈ d.blockIds :=
    fun c mem => (h.fits c mem).source_mem
  refine ⟨h.blockIds, ?_, fun c mem => ?_, ?_, ?_⟩
  · rw [List.map_append]
    exact h.connectionIds.append (List.nodup_singleton _) (by simpa [draw] using fresh)
  · rcases List.mem_append.mp mem with mem | mem
    · exact h.fits c mem
    · rwa [List.mem_singleton.mp mem]
  · refine List.pairwise_append.mpr ⟨h.ends, List.pairwise_singleton _ _, fun c mem c' mem' => ?_⟩
    rw [List.mem_singleton.mp mem']
    rintro ⟨sameOutput, sameInput⟩
    obtain ⟨-, -, -, -, -, -, single, -⟩ := admissible
    -- the new connection repeats none of those with another id, and its id is new
    have other := List.any_eq_false.mp single c mem
    have distinct : c.id ≠ id := fun same => fresh (List.mem_map.mpr ⟨c, mem, same⟩)
    simp [Connection.sameEndpoints, sameOutput, sameInput] at other
    exact distinct other
  · -- what feeds what afterwards is what fed what before, and the new pair
    have walks := not_walk_of_wouldCloseCycle present fits.source_mem fits.target_mem free
    refine (h.acyclic.insert walks).mono ?_
    rintro a b ⟨c, mem, rfl, rfl⟩
    rcases List.mem_append.mp mem with mem | mem
    · exact .inl ⟨c, mem, rfl, rfl⟩
    · rw [List.mem_singleton.mp mem]
      exact .inr ⟨rfl, rfl⟩

/-- Every change of a strategy keeps it well-formed. -/
theorem IsWellFormed.of_edited (h : d.IsWellFormed) (edited : d.Edited catalog d') :
    d'.IsWellFormed := by
  cases edited with
  | placed new placed => exact h.placed (id_of_place placed ▸ new)
  | revised split _ revised => exact h.revised split revised
  | removed => exact h.removed _
  | connected new sound free =>
    exact h.connected new (Connection.errors_eq_nil_iff.mp sound) free
  | disconnected => exact h.disconnected _
  | renamed => exact ⟨h.blockIds, h.connectionIds, h.fits, h.ends, h.acyclic⟩
  | tagged => exact ⟨h.blockIds, h.connectionIds, h.fits, h.ends, h.acyclic⟩

/-! ## Sessions -/

/-- A new strategy is well formed. -/
theorem isWellFormed_new (id name createdBy : String) (now : Time.Instant) :
    (new id name createdBy now).IsWellFormed := by
  refine ⟨List.nodup_nil, List.nodup_nil, ?_, List.Pairwise.nil, ?_⟩
  · intro c mem
    contradiction
  · intro a walk
    obtain ⟨b, ⟨c, mem, -⟩, -⟩ := TransGen.head'_iff.mp walk
    contradiction

/-- Sessions keep strategies well-formed. -/
theorem IsWellFormed.of_serveAll (h : d.IsWellFormed) (requests : List Request) :
    (d.serveAll requests).IsWellFormed := by
  refine serveAll_induction h ?_ ?_
  · intro catalog e _ d d' h edited
    exact h.of_edited edited
  · intro now d h
    exact ⟨h.blockIds, h.connectionIds, h.fits, h.ends, h.acyclic⟩

/-- Every session that starts from a new strategy ends with a well-formed one, whatever is asked for
and whatever the catalogs are. -/
theorem isWellFormed_serveAll (id name createdBy : String) (now : Time.Instant)
    (requests : List Request) :
    ((new id name createdBy now).serveAll requests).IsWellFormed :=
  (isWellFormed_new id name createdBy now).of_serveAll requests

end Definition

end StrategyCanvas
