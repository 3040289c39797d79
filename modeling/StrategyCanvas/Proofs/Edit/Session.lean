import StrategyCanvas.Edit.Basic
import StrategyCanvas.Proofs.Document.Lookup
import StrategyCanvas.Proofs.Step

/-!
# Editing sessions

For each kind of edit one lemma says when it is accepted and what it makes of the strategy
(`apply_moveBlock_eq_ok_iff` and the others). An accepted edit is one of seven changes, which
`Definition.Edited` lists with the conditions they were made under. A session serves requests one
after the other, and what every change and every save keeps holds at the end of all sessions
(`serveAll_induction`, `forall_blocks_serveAll`).
-/

namespace StrategyCanvas

/-- The first match and what stands around it, before and after the change. -/
theorem exists_mapFirst {α : Type} {p : α → Bool} {as : List α} {a : α} (h : as.find? p = some a)
    (change : α → α) : ∃ before after, as = before ++ a :: after ∧ (∀ b ∈ before, p b = false)
      ∧ mapFirst p change as = before ++ change a :: after := by
  induction as with
  | nil => contradiction
  | cons b rest ih =>
    by_cases hb : p b
    · rw [List.find?_cons_of_pos hb] at h
      obtain rfl := Option.some.inj h
      exact ⟨[], rest, rfl, by simp, by simp [mapFirst, hb]⟩
    · rw [List.find?_cons_of_neg hb] at h
      obtain ⟨before, after, rfl, none, changed⟩ := ih h
      refine ⟨b :: before, after, rfl, ?_, by simp [mapFirst, hb, changed]⟩
      intro k mem
      rcases List.mem_cons.mp mem with rfl | mem
      · exact Bool.eq_false_iff.mpr hb
      · exact none k mem

/-! ## Changes -/

/-- What an edit can make of a block: it stands elsewhere, has another extent, or the first property
of a name has another value of its kind. -/
inductive Block.Revised (b : Block) : Block → Prop
  | moved (position : Position) : Revised b { b with position := position }
  | resized (size : Size) : size.isDrawable = true → Revised b { b with size := size }
  | configured {before after : List Property} {p : Property} {value : PropertyValue} :
      b.properties = before ++ p :: after → (∀ q ∈ before, q.name ≠ p.name) →
      value.fits p.kind = true →
      Revised b { b with properties := before ++ { p with value := some value } :: after }

/-- What an accepted edit can make of a strategy. -/
inductive Definition.Edited (catalog : Catalog) (d : Definition) : Definition → Prop
  | placed {type : BlockType} {blockId : String} {position : Position} {b : Block} :
      d.block? blockId = none → catalog.place type blockId position = some b →
      Edited catalog d { d with blocks := d.blocks ++ [b] }
  | revised {before after : List Block} {b b' : Block} :
      d.blocks = before ++ b :: after → (∀ a ∈ before, a.id ≠ b.id) → b.Revised b' →
      Edited catalog d { d with blocks := before ++ b' :: after }
  | removed {blockId : String} : (d.block? blockId).isSome →
      Edited catalog d (d.removeBlock blockId)
  | connected {id source output target input : String} : d.connection? id = none →
      (((d.draw id source output target input).findings d.blocks d.connections).filter
        (·.isError)) = [] → d.wouldCloseCycle source target = false →
      Edited catalog d
        { d with connections := d.connections ++ [d.draw id source output target input] }
  | disconnected {id : String} : (d.connection? id).isSome →
      Edited catalog d { d with connections := d.connections.filter (·.id ≠ id) }
  | renamed (name : String) : Edited catalog d { d with name := name }
  | tagged (tags : List String) :
      Edited catalog d { d with metadata := { d.metadata with tags := tags } }

namespace Block

/-- A value is set if the block has a property of that name and the value is of its kind. -/
theorem setProperty_eq_ok_iff {b b' : Block} {property : String} {value : PropertyValue} :
    b.setProperty property value = .ok b' ↔ ∃ p, b.property? property = some p
      ∧ value.fits p.kind = true ∧ b' = { b with
        properties := mapFirst (·.name = property) (fun q => { q with value := some value })
          b.properties } := by
  rw [setProperty]
  cases b.property? property with
  | none => simp
  | some p =>
    dsimp only
    split
    · rename_i fits
      constructor
      · intro h
        exact ⟨p, rfl, fits, (Except.ok.inj h).symm⟩
      · rintro ⟨_, -, -, rfl⟩
        rfl
    · rename_i unfit
      simp [unfit]

theorem revised_of_setProperty {b b' : Block} {property : String} {value : PropertyValue}
    (h : b.setProperty property value = .ok b') : b.Revised b' := by
  obtain ⟨p, found, fits, rfl⟩ := setProperty_eq_ok_iff.mp h
  obtain ⟨before, after, split, first, changed⟩ :=
    exists_mapFirst found fun q => { q with value := some value }
  have name : p.name = property := key_of_find? found
  rw [changed]
  refine .configured split (fun q mem => ?_) fits
  rw [name]
  exact of_decide_eq_false (first q mem)

theorem Revised.id_eq {b b' : Block} (h : b.Revised b') : b'.id = b.id := by
  cases h <;> rfl

theorem Revised.inputs_eq {b b' : Block} (h : b.Revised b') : b'.inputs = b.inputs := by
  cases h <;> rfl

theorem Revised.outputs_eq {b b' : Block} (h : b.Revised b') : b'.outputs = b.outputs := by
  cases h <;> rfl

end Block

namespace Definition

variable {catalog : Catalog} {d d' : Definition}

theorem edited_mapBlock {blockId : String} {b : Block} {change : Block → Block}
    (found : d.block? blockId = some b) (h : b.Revised (change b)) :
    d.Edited catalog (d.mapBlock blockId change) := by
  obtain ⟨before, after, split, first, changed⟩ := exists_mapFirst found change
  have id : b.id = blockId := key_of_find? found
  rw [mapBlock, changed]
  refine .revised split (fun a mem => ?_) h
  rw [id]
  exact of_decide_eq_false (first a mem)

/-! ## Accepted edits -/

/-- The strategy with one more block. -/
def placed (d : Definition) (b : Block) : Definition := { d with blocks := d.blocks ++ [b] }

/-- A block is added unless its id is taken or the catalog has nothing of its type. -/
theorem apply_addBlock_eq_ok_iff {blockId : String} {type : BlockType} {position : Position} :
    d.apply catalog (.addBlock blockId type position) = .ok d' ↔ d.block? blockId = none
      ∧ ∃ b, catalog.place type blockId position = some b ∧ d' = d.placed b := by
  rw [apply]
  cases d.block? blockId with
  | some a => simp
  | none => cases catalog.place type blockId position <;> simp [placed, eq_comm]

/-- A block is moved to any position. -/
theorem apply_moveBlock_eq_ok_iff {blockId : String} {position : Position} :
    d.apply catalog (.moveBlock blockId position) = .ok d' ↔ ∃ b, d.block? blockId = some b
      ∧ d' = d.mapBlock blockId fun b => { b with position := position } := by
  rw [apply]
  cases d.block? blockId <;> simp [eq_comm]

/-- A block is given an extent that can be drawn. -/
theorem apply_resizeBlock_eq_ok_iff {blockId : String} {size : Size} :
    d.apply catalog (.resizeBlock blockId size) = .ok d' ↔ size.isDrawable = true
      ∧ ∃ b, d.block? blockId = some b
        ∧ d' = d.mapBlock blockId fun b => { b with size := size } := by
  rw [apply]
  cases size.isDrawable with
  | false => simp
  | true => cases d.block? blockId <;> simp [eq_comm]

/-- A block is deleted if there is one. -/
theorem apply_deleteBlock_eq_ok_iff {blockId : String} :
    d.apply catalog (.deleteBlock blockId) = .ok d' ↔ (d.block? blockId).isSome
      ∧ d' = d.removeBlock blockId := by
  rw [apply]
  cases d.block? blockId <;> simp [eq_comm]

/-- A connection is added unless it draws an error or closes a cycle. -/
theorem connect_eq_ok_iff_findings {c : Connection} :
    d.connect c = .ok d' ↔ (c.findings d.blocks d.connections).filter (·.isError) = []
      ∧ d.wouldCloseCycle c.sourceBlockId c.targetBlockId = false
      ∧ d' = { d with connections := d.connections ++ [c] } := by
  rw [connect]
  generalize (c.findings d.blocks d.connections).filter (·.isError) = errors
  cases errors with
  | cons f fs => simp
  | nil => cases d.wouldCloseCycle c.sourceBlockId c.targetBlockId <;> simp [eq_comm]

/-- A connection is drawn under a new id if it can be added. -/
theorem apply_addConnection_eq_ok_iff {id source output target input : String} :
    d.apply catalog (.addConnection id source output target input) = .ok d'
      ↔ d.connection? id = none ∧ d.connect (d.draw id source output target input) = .ok d' := by
  rw [apply]
  cases d.connection? id <;> simp

/-- A connection is deleted if there is one. -/
theorem apply_deleteConnection_eq_ok_iff {id : String} :
    d.apply catalog (.deleteConnection id) = .ok d' ↔ (d.connection? id).isSome
      ∧ d' = { d with connections := d.connections.filter (·.id ≠ id) } := by
  rw [apply]
  cases d.connection? id <;> simp [eq_comm]

/-- A property of a block is set if the block takes the value. -/
theorem apply_updateProperty_eq_ok_iff {blockId property : String} {value : PropertyValue} :
    d.apply catalog (.updateProperty blockId property value) = .ok d'
      ↔ ∃ b b', d.block? blockId = some b ∧ b.setProperty property value = .ok b'
        ∧ d' = d.mapBlock blockId fun _ => b' := by
  rw [apply]
  cases d.block? blockId with
  | none => simp
  | some b =>
    dsimp only
    rw [bind_eq_ok_iff]
    simp [eq_comm]

/-- An accepted edit makes one of the changes: every check that it passes is a condition of its
change. -/
theorem edited_of_apply {e : Edit} (h : d.apply catalog e = .ok d') : d.Edited catalog d' := by
  cases e with
  | addBlock blockId type position =>
    obtain ⟨new, b, placed, rfl⟩ := apply_addBlock_eq_ok_iff.mp h
    exact .placed new placed
  | moveBlock blockId position =>
    obtain ⟨b, found, rfl⟩ := apply_moveBlock_eq_ok_iff.mp h
    exact edited_mapBlock found (.moved position)
  | resizeBlock blockId size =>
    obtain ⟨drawable, b, found, rfl⟩ := apply_resizeBlock_eq_ok_iff.mp h
    exact edited_mapBlock found (.resized size drawable)
  | deleteBlock blockId =>
    obtain ⟨found, rfl⟩ := apply_deleteBlock_eq_ok_iff.mp h
    exact .removed found
  | addConnection id source output target input =>
    obtain ⟨new, connected⟩ := apply_addConnection_eq_ok_iff.mp h
    obtain ⟨sound, allowed, rfl⟩ := connect_eq_ok_iff_findings.mp connected
    exact .connected new sound allowed
  | deleteConnection id =>
    obtain ⟨found, rfl⟩ := apply_deleteConnection_eq_ok_iff.mp h
    exact .disconnected found
  | updateProperty blockId property value =>
    obtain ⟨b, b', found, set, rfl⟩ := apply_updateProperty_eq_ok_iff.mp h
    exact edited_mapBlock found (Block.revised_of_setProperty set)
  | renameStrategy name =>
    obtain rfl := Except.ok.inj h
    exact .renamed name
  | setTags tags =>
    obtain rfl := Except.ok.inj h
    exact .tagged tags

end Definition

/-! ## Sessions -/

/-- What an editor is asked for: an edit with the catalog then in force, or a save. -/
inductive Request
  | edit (catalog : Catalog) (e : Edit)
  | save (now : Time.Instant)

namespace Definition

variable {catalog : Catalog} {d d' : Definition}

/-- The state after a request. A refused edit leaves the state as it was. -/
def serve (d : Definition) : Request → Definition
  | .edit catalog e =>
    match d.apply catalog e with
    | .ok next => next
    | .error _ => d
  | .save now => d.save now

/-- The state after requests, served one after the other. -/
def serveAll (d : Definition) (requests : List Request) : Definition := requests.foldl serve d

/-- What the changes of a session and its saves keep holds at its end. -/
theorem serveAll_induction {P : Definition → Prop} {d : Definition} {requests : List Request}
    (start : P d)
    (edited : ∀ catalog e, .edit catalog e ∈ requests → ∀ d d', P d → d.Edited catalog d' → P d')
    (saved : ∀ now d, P d → P (d.save now)) : P (d.serveAll requests) := by
  induction requests generalizing d with
  | nil => exact start
  | cons request rest ih =>
    refine ih ?_ fun catalog e mem => edited catalog e (List.mem_cons_of_mem _ mem)
    cases request with
    | edit catalog e =>
      simp only [serve]
      split
      · rename_i next accepted
        exact edited catalog e List.mem_cons_self d next start (edited_of_apply accepted)
      · exact start
    | save now => exact saved now d start

/-- What holds of all blocks still does after a change if it holds of every new block and every
revision keeps it. -/
theorem Edited.forall_blocks {P : Block → Prop} (edited : d.Edited catalog d')
    (placed : ∀ type blockId position b, catalog.place type blockId position = some b → P b)
    (revised : ∀ b b', P b → b.Revised b' → P b') (h : ∀ b ∈ d.blocks, P b) :
    ∀ b ∈ d'.blocks, P b := by
  cases edited with
  | placed _ new =>
    intro b mem
    rcases List.mem_append.mp mem with mem | mem
    · exact h b mem
    · rw [List.mem_singleton.mp mem]
      exact placed _ _ _ _ new
  | revised split _ change =>
    rw [split] at h
    intro b mem
    rcases List.mem_append.mp mem with mem | mem
    · exact h b (List.mem_append_left _ mem)
    · rcases List.mem_cons.mp mem with rfl | mem
      · exact revised _ _ (h _ (List.mem_append_right _ List.mem_cons_self)) change
      · exact h b (List.mem_append_right _ (List.mem_cons_of_mem _ mem))
  | removed => exact fun b mem => h b (List.mem_filter.mp mem).1
  | connected => exact h
  | disconnected => exact h
  | renamed => exact h
  | tagged => exact h

/-- What holds of every new block of a catalog, and what every revision keeps, holds of all blocks
of a strategy that is edited with the catalog alone. -/
theorem forall_blocks_serveAll {P : Block → Prop} {d : Definition} {edits : List Edit}
    (placed : ∀ type blockId position b, catalog.place type blockId position = some b → P b)
    (revised : ∀ b b', P b → b.Revised b' → P b') (h : ∀ b ∈ d.blocks, P b) :
    ∀ b ∈ (d.serveAll (edits.map (.edit catalog))).blocks, P b := by
  refine serveAll_induction (P := fun d => ∀ b ∈ d.blocks, P b) h ?_ fun _ _ kept => kept
  intro other e mem d d' kept edited
  obtain ⟨_, -, same⟩ := List.mem_map.mp mem
  obtain ⟨rfl, -⟩ := Request.edit.inj same
  exact edited.forall_blocks placed revised kept

end Definition

end StrategyCanvas
