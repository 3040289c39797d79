import StrategyCanvas.Code.Program
import StrategyCanvas.Proofs.Code.Sheet

/-!
# The lines of a program and where they come from

A program has fixed entries and those of its blocks (`forall_mem_entries`). Only the latter are
marked, each with its own block, and only the updates of blocks are marked as updates, in the order
of the blocks (`filterMap_update?_entries`). Laying entries out keeps marks and texts and numbers
the lines.
-/

namespace StrategyCanvas.Code

/-! ## Entries -/

namespace Entry

/-- The text of an entry; a blank line has none. -/
def text (e : Entry) : String := e.stroke.text?.getD ""

/-- The mark of an entry, with the text that is marked. -/
def marked? (e : Entry) : Option (Mark × String) := e.mark.map (·, e.text)

/-- The same for entries of updates only. -/
def update? (e : Entry) : Option (Mark × String) := e.marked?.filter (·.1.part = .update)

end Entry

/-- What a block contributes to a program. -/
def Emission.entries (e : Emission) : List Entry :=
  e.declarations ++ e.initializers ++ e.updates ++ e.resetLines ++ e.getterArms ++ e.setterArms
    ++ e.keyLines

/-! ## Updates -/

section Updates

variable {e : Emission} {s : Stroke String} {part : Part}

@[simp] theorem Entry.update?_plain : (plain s).update? = none := rfl

@[simp] theorem Entry.update?_ofBlock : (ofBlock e part s).update?
    = if part = .update then some (⟨e.blockId, part, false⟩, s.text?.getD "") else none := by
  cases part <;> rfl

@[simp] theorem Entry.update?_ofStatement {s : Statement} :
    (ofStatement e s).update? = some (⟨e.blockId, .update, true⟩, s.text) := rfl

/-- Fields are declared as parameters or as state. -/
theorem Emission.part_ne_update_of_mem_rows {r : FieldRow} (h : r ∈ e.rows) : r.part ≠ .update := by
  simp only [rows, List.mem_append, List.mem_map] at h
  rcases h with (⟨_, -, rfl⟩ | ⟨_, -, rfl⟩) | ⟨_, -, rfl⟩ <;> simp

theorem Emission.filterMap_update?_declarations : e.declarations.filterMap Entry.update? = [] := by
  rw [List.filterMap_eq_nil_iff]
  intro entry mem
  rcases List.mem_cons.mp mem with rfl | mem
  · simp
  · obtain ⟨r, known, rfl⟩ := List.mem_map.mp mem
    simp [part_ne_update_of_mem_rows known]

theorem Emission.filterMap_update?_setterArms : e.setterArms.filterMap Entry.update? = [] := by
  simp only [List.filterMap_eq_nil_iff, setterArms, List.mem_flatMap]
  rintro entry ⟨p, -, mem⟩
  unfold setterArm at mem
  split at mem
  · rw [List.mem_singleton.mp mem]
    simp
  · simp only [List.mem_cons, List.not_mem_nil, or_false] at mem
    rcases mem with rfl | rfl | rfl | rfl <;> simp

/-- What is marked of the update of a block: the comment above it, then its statements. -/
def Emission.updateTexts (e : Emission) : List (Mark × String) :=
  (⟨e.blockId, .update, false⟩, e.comment)
    :: e.update.map fun s => (⟨e.blockId, .update, true⟩, s.text)

theorem Emission.filterMap_update?_updates :
    e.updates.filterMap Entry.update? = e.updateTexts := by
  simp [updates, updateTexts, List.filterMap_cons, List.filterMap_map, Stroke.text?,
    Function.comp_def]

end Updates

namespace Program

variable {p : Program} {unit : Nat} {m : Mark} {l : LaidLine}

/-- Only the updates of blocks are marked as updates. -/
theorem filterMap_update?_entries (p : Program) :
    p.entries.filterMap Entry.update? = p.blocks.flatMap Emission.updateTexts := by
  have nothing : p.blocks.flatMap (fun _ => ([] : List (Mark × String))) = [] := by simp
  simp [entries, heading, declaration, functionsOpening, construction, execution, resetting, getter,
    setter, keyList, defaulting, closingBrace, List.filterMap_cons, List.filterMap_flatMap,
    List.filterMap_map, Emission.filterMap_update?_declarations,
    Emission.filterMap_update?_setterArms, Emission.filterMap_update?_updates,
    Emission.initializers, Emission.resetLines, Emission.getterArms, Emission.keyLines, nothing]

/-! ## Lines -/

/-- Laying entries out keeps their marks and their texts. -/
theorem map_markedLines (p : Program) (unit : Nat) :
    (p.markedLines unit).map (fun x => (x.1, x.2.text)) = p.entries.filterMap Entry.marked? := by
  have texts : ∀ x ∈ p.entries.zip (p.lines unit), x.2.text = x.1.text := by
    rintro ⟨entry, l⟩ mem
    have pair : (entry.stroke, l) ∈ (p.entries.map (·.stroke)).zip (p.lines unit) := by
      rw [List.zip_map_left]
      exact List.mem_map.mpr ⟨(entry, l), mem, rfl⟩
    exact text_of_mem_zip_lay pair
  have enough : p.entries.length ≤ (p.lines unit).length := by simp [lines]
  calc (p.markedLines unit).map (fun x => (x.1, x.2.text))
      = (p.entries.zip (p.lines unit)).filterMap (fun x => x.1.marked?) := by
        rw [markedLines, List.map_filterMap]
        refine List.filterMap_congr fun x mem => ?_
        rw [Entry.marked?, ← texts x mem, Option.map_map]
        rfl
    _ = ((p.entries.zip (p.lines unit)).map Prod.fst).filterMap Entry.marked? := by
        rw [List.filterMap_map]
        rfl
    _ = p.entries.filterMap Entry.marked? := by rw [List.map_fst_zip enough]

theorem mem_lines_of_mem_markedLines (h : (m, l) ∈ p.markedLines unit) : l ∈ p.lines unit := by
  obtain ⟨⟨entry, line⟩, mem, mark⟩ := List.mem_filterMap.mp h
  obtain ⟨_, -, same⟩ := Option.map_eq_some_iff.mp mark
  obtain ⟨rfl, rfl⟩ := Prod.mk.inj same
  exact (List.of_mem_zip mem).2

/-- Marked lines come from marked entries. -/
theorem exists_entry_of_mem_markedLines (h : (m, l) ∈ p.markedLines unit) :
    ∃ entry ∈ p.entries, entry.mark = some m ∧ entry.text = l.text := by
  have view : (m, l.text) ∈ p.entries.filterMap Entry.marked? := by
    rw [← map_markedLines p unit]
    exact List.mem_map.mpr ⟨(m, l), h, rfl⟩
  obtain ⟨entry, mem, marked⟩ := List.mem_filterMap.mp view
  obtain ⟨_, mark, same⟩ := Option.map_eq_some_iff.mp marked
  obtain ⟨rfl, text⟩ := Prod.mk.inj same
  exact ⟨entry, mem, mark, text⟩

/-- Later marks stand on later lines. -/
theorem pairwise_markedLines (p : Program) (unit : Nat) :
    (p.markedLines unit).Pairwise (·.2.number < ·.2.number) := by
  have zipped : (p.entries.zip (p.lines unit)).Pairwise (·.2.number < ·.2.number) := by
    have ascending : (p.lines unit).Pairwise (·.number < ·.number) := pairwise_number_lay
    have enough : (p.lines unit).length ≤ p.entries.length := by simp [lines]
    rw [← List.map_snd_zip enough, List.pairwise_map] at ascending
    exact ascending
  refine zipped.filterMap _ fun x y less a ha b hb => ?_
  obtain ⟨_, -, rfl⟩ := Option.map_eq_some_iff.mp ha
  obtain ⟨_, -, rfl⟩ := Option.map_eq_some_iff.mp hb
  exact less

/-! ## Fixed entries and entries of blocks -/

/-- The program without its blocks. -/
def bare (p : Program) : Program := { p with blocks := [] }

/-- The entries of a program are those that it has without its blocks, and those of its blocks. -/
theorem forall_mem_entries {P : Entry → Prop} (fixed : ∀ entry ∈ p.bare.entries, P entry)
    (given : ∀ e ∈ p.blocks, ∀ entry ∈ e.entries, P entry) : ∀ entry ∈ p.entries, P entry := by
  -- a part of the program has fixed entries around those of its blocks
  have around {front back : List Entry} {f : Emission → List Entry}
      (fixed : ∀ entry ∈ front ++ p.bare.blocks.flatMap f ++ back, P entry)
      (given : ∀ e ∈ p.blocks, ∀ entry ∈ f e, P entry) :
      ∀ entry ∈ front ++ p.blocks.flatMap f ++ back, P entry := by
    simp only [List.forall_mem_append] at fixed ⊢
    exact ⟨⟨fixed.1.1, List.forall_mem_flatMap.mpr given⟩, fixed.2⟩
  simp only [Emission.entries, List.forall_mem_append, imp_and, forall_and] at given
  obtain ⟨⟨⟨⟨⟨⟨declarations, initializers⟩, updates⟩, resets⟩, getters⟩, setters⟩, keys⟩ := given
  simp only [entries, List.forall_mem_append] at fixed ⊢
  obtain ⟨⟨⟨⟨⟨⟨⟨⟨⟨heading, declaration⟩, opening⟩, construction⟩, execution⟩, resetting⟩, getter⟩,
    setter⟩, keyList⟩, defaulting⟩ := fixed
  exact ⟨⟨⟨⟨⟨⟨⟨⟨⟨heading, around declaration declarations⟩, opening⟩,
    around construction initializers⟩, around execution updates⟩, around resetting resets⟩,
    around getter getters⟩, around setter setters⟩, around keyList keys⟩, defaulting⟩

end Program

end StrategyCanvas.Code
