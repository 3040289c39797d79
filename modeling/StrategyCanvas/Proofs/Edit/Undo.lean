import StrategyCanvas.Proofs.Edit.Additions
import StrategyCanvas.Proofs.Edit.WellFormed

/-!
# Taking additions back

A deletion goes by the id alone: it removes every block with the id and every connection that
touches one, or every connection with the id. In a session this takes back exactly what an addition
has brought (`apply_deletion_of_addition`), as no connection of a well-formed strategy touches an id
that is not there (`IsWellFormed.removeBlock_placed`), and as no id is added that is there already.
-/

namespace StrategyCanvas

/-- What has just been added under a new key is all there is to remove. -/
theorem filter_key_ne_append {α κ : Type} [DecidableEq κ] {key : α → κ} {as : List α} {a : α}
    (new : key a ∉ as.map key) : (as ++ [a]).filter (fun b => key b ≠ key a) = as := by
  have others : as.filter (fun b => key b ≠ key a) = as := by
    rw [List.filter_eq_self]
    intro b mem
    rw [decide_eq_true_eq]
    exact fun same => new (same ▸ List.mem_map_of_mem mem)
  rw [List.filter_append, others, List.filter_eq_nil_iff.mpr (by simp), List.append_nil]

namespace Definition

variable {catalog : Catalog} {d d' : Definition}

/-- No connection of a well-formed strategy touches an id that no block has. -/
theorem IsWellFormed.touches_eq_false (h : d.IsWellFormed) {blockId : String}
    (new : d.block? blockId = none) {c : Connection} (mem : c ∈ d.connections) :
    c.touches blockId = false := by
  have absent : blockId ∉ d.blocks.map (·.id) := block?_eq_none_iff.mp new
  have source : c.sourceBlockId ≠ blockId := fun same => absent (same ▸ (h.fits c mem).source_mem)
  have target : c.targetBlockId ≠ blockId := fun same => absent (same ▸ (h.fits c mem).target_mem)
  simp [Connection.touches, source, target]

/-- Removing the block that was placed last leaves the strategy as it was. -/
theorem IsWellFormed.removeBlock_placed (h : d.IsWellFormed) {b : Block}
    (new : d.block? b.id = none) : (d.placed b).removeBlock b.id = d := by
  have blocks : (d.blocks ++ [b]).filter (·.id ≠ b.id) = d.blocks :=
    filter_key_ne_append (block?_eq_none_iff.mp new)
  have connections : d.connections.filter (!·.touches b.id) = d.connections := by
    rw [List.filter_eq_self]
    intro c mem
    rw [h.touches_eq_false new mem]
    rfl
  rw [removeBlock, Definition.placed, blocks, connections]

theorem IsWellFormed.apply_deleteBlock (h : d.IsWellFormed) {blockId : String} {type : BlockType}
    {position : Position} (accepted : d.apply catalog (.addBlock blockId type position) = .ok d')
    (later : Catalog) : d'.apply later (.deleteBlock blockId) = .ok d := by
  obtain ⟨new, b, placed, rfl⟩ := apply_addBlock_eq_ok_iff.mp accepted
  obtain rfl : b.id = blockId := id_of_place placed
  have found : ((d.placed b).block? b.id).isSome := by simp [block?, Definition.placed]
  refine apply_deleteBlock_eq_ok_iff.mpr ⟨found, ?_⟩
  exact (h.removeBlock_placed new).symm

/-- A connection is taken back whatever the others are. -/
theorem apply_deleteConnection {id source output target input : String}
    (accepted : d.apply catalog (.addConnection id source output target input) = .ok d')
    (later : Catalog) : d'.apply later (.deleteConnection id) = .ok d := by
  obtain ⟨new, -, rfl⟩ := (apply_eq_ok_iff_of_drawn? rfl).mp accepted
  generalize drawn : d.draw id source output target input = c at new
  obtain rfl : c.id = id := by rw [← drawn]; rfl
  have found : ((d.extend [c]).connection? c.id).isSome := by simp [connection?, extend]
  have connections : (d.connections ++ [c]).filter (·.id ≠ c.id) = d.connections :=
    filter_key_ne_append new
  refine apply_deleteConnection_eq_ok_iff.mpr ⟨found, ?_⟩
  rw [extend, connections]

/-- In a session that starts from a new strategy, an accepted addition of a block or of a connection
is taken back by the deletion of its id, whatever was asked for before. -/
theorem apply_deletion_of_addition (id name createdBy : String) (now : Time.Instant)
    (requests : List Request) (catalog later : Catalog) :
    let d := (new id name createdBy now).serveAll requests
    (∀ blockId type position d', d.apply catalog (.addBlock blockId type position) = .ok d' →
      d'.apply later (.deleteBlock blockId) = .ok d)
    ∧ ∀ connectionId source output target input d',
      d.apply catalog (.addConnection connectionId source output target input) = .ok d' →
        d'.apply later (.deleteConnection connectionId) = .ok d := by
  intro d
  have wellFormed : d.IsWellFormed :=
    (isWellFormed_new id name createdBy now).of_serveAll requests
  constructor
  · intro blockId type position d' accepted
    exact wellFormed.apply_deleteBlock accepted later
  · intro connectionId source output target input d' accepted
    exact apply_deleteConnection accepted later

/-- Averages that can feed one another. -/
def averages : Catalog :=
  ⟨[{ type := .sma
      category := .indicator
      name := "SMA"
      description := ""
      inputs := [⟨"Source", .number, true⟩]
      outputs := [⟨"Value", .indicator⟩]
      properties := []
      defaultSize := .usual }]⟩

/-- Two averages are joined, which can be taken back. While they are joined a third one comes and
goes. -/
theorem apply_deletion_averages :
    let session := [Request.edit averages (.addBlock "a" .sma .origin),
      .edit averages (.addBlock "b" .sma .origin), .save ⟨1, 0⟩]
    let link := Edit.addConnection "c1" "a" "a:out:value" "b" "b:in:source"
    let start := (new "s1" "Averages" "t" ⟨0, 0⟩).serveAll session
    let d := (new "s1" "Averages" "t" ⟨0, 0⟩).serveAll (session ++ [.edit averages link])
    (∃ d', start.apply averages link = .ok d'
      ∧ d'.apply ⟨[]⟩ (.deleteConnection "c1") = .ok start)
    ∧ d.connections.length = 1
    ∧ ∃ d', d.apply averages (.addBlock "c" .sma .origin) = .ok d'
      ∧ d'.apply ⟨[]⟩ (.deleteBlock "c") = .ok d := by
  intro session link start d
  have undone (requests : List Request) :=
    apply_deletion_of_addition "s1" "Averages" "t" ⟨0, 0⟩ requests averages ⟨[]⟩
  have joined : start.apply averages link = .ok _ :=
    apply_of_hasCycle rfl (by decide +kernel) (by decide +kernel) (by decide +kernel)
      (by decide +kernel)
  have reached : d = start.serve (.edit averages link) := List.foldl_concat ..
  rw [serve, joined] at reached
  have placed : d.apply averages (.addBlock "c" .sma .origin) = .ok _ :=
    apply_addBlock_eq_ok_iff.mpr ⟨by rw [reached]; decide +kernel, _, rfl, rfl⟩
  refine ⟨⟨_, joined, (undone session).2 _ _ _ _ _ _ joined⟩, ?_, _, placed,
    (undone (session ++ [.edit averages link])).1 _ _ _ _ placed⟩
  rw [reached]
  rfl

end Definition

end StrategyCanvas
