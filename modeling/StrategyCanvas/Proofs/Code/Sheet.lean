import Mathlib.Data.List.Nodup
import StrategyCanvas.Code.Sheet
import StrategyCanvas.Proofs.Text.Line

/-!
# Lines of a sheet

Lines are numbered as they are counted in the finished text, provided that no text brings a line
feed of its own (`getElem?_linesOf_sheetText`).
-/

namespace StrategyCanvas.Code

/-! ## Strokes -/

namespace Stroke

variable {α β : Type} (f : α → β) (s : Stroke α)

@[simp] theorem level_map (depth : Nat) : (s.map f).level depth = s.level depth := by
  cases s <;> rfl

@[simp] theorem depthAfter_map (depth : Nat) : (s.map f).depthAfter depth = s.depthAfter depth := by
  cases s <;> rfl

@[simp] theorem text?_map : (s.map f).text? = s.text?.map f := by
  cases s <;> rfl

end Stroke

/-! ## Lines -/

variable {unit depth written : Nat} {strokes : List (Stroke String)} {l : LaidLine}

theorem pairwise_number_lay : (lay unit depth written strokes).Pairwise (·.number < ·.number) := by
  have ascending : ((lay unit depth written strokes).map LaidLine.number).Pairwise (· < ·) := by
    rw [map_number_lay]
    exact List.pairwise_lt_range'
  exact List.pairwise_map.mp ascending

/-- A stroke gives its own text to its line. -/
theorem text_of_mem_zip_lay {s : Stroke String}
    (h : (s, l) ∈ strokes.zip (lay unit depth written strokes)) : l.text = s.text?.getD "" := by
  induction strokes generalizing depth written with
  | nil => contradiction
  | cons first rest ih =>
    rcases List.mem_cons.mp h with same | later
    · obtain ⟨rfl, rfl⟩ := Prod.mk.inj same
      rfl
    · exact ih later

/-- The texts of strokes are laid out one after the other. -/
theorem map_text_lay : (lay unit depth written strokes).map LaidLine.text
    = strokes.map (·.text?.getD "") := by
  induction strokes generalizing depth written with
  | nil => rfl
  | cons s rest ih => rw [lay, List.map_cons, List.map_cons, ih]

/-- Where a stroke is laid out is told by the number of strokes in front of it, and by the depth
behind them. -/
theorem getElem?_lay (unit depth written : Nat) (strokes : List (Stroke String)) (i : Nat) :
    (lay unit depth written strokes)[i]? = strokes[i]?.map fun s =>
      ⟨written + i + 1, s.level ((strokes.take i).foldl Stroke.depthAfter depth) * unit,
        s.text?.getD ""⟩ := by
  induction strokes generalizing depth written i with
  | nil => rfl
  | cons s rest ih =>
    cases i with
    | zero => rfl
    | succ i =>
      rw [lay, List.getElem?_cons_succ, List.getElem?_cons_succ, ih, Nat.add_right_comm written 1 i]
      rfl

/-- Lines are numbered by their places, from one on. -/
theorem number_of_getElem?_lay {i : Nat} (h : (lay unit depth 0 strokes)[i]? = some l) :
    l.number = i + 1 := by
  rw [getElem?_lay, Option.map_eq_some_iff] at h
  obtain ⟨s, -, rfl⟩ := h
  rw [Nat.zero_add]

/-- A line stands at the place that its number says. -/
theorem getElem?_number_lay (h : l ∈ lay unit depth 0 strokes) :
    1 ≤ l.number ∧ (lay unit depth 0 strokes)[l.number - 1]? = some l := by
  obtain ⟨i, here⟩ := List.getElem?_of_mem h
  have number := number_of_getElem?_lay here
  refine ⟨by omega, ?_⟩
  rwa [number, Nat.add_sub_cancel]

/-! ## Finished text -/

namespace LaidLine

theorem take_chars : l.chars.take l.indent = List.replicate l.indent ' ' := by
  simp [chars]

theorem drop_chars (k : Nat) : l.chars.drop (l.indent + k) = l.text.toList.drop k := by
  simp [chars, List.drop_append]

end LaidLine

/-- The text of a sheet has exactly its lines, and nothing after the last line feed. -/
theorem linesOf_sheetText {lines : List LaidLine} (h : ∀ l ∈ lines, Text.IsOneLine l.text) :
    Text.linesOf (sheetText lines) = lines.map (·.chars) ++ [[]] := by
  have clean : ∀ cs ∈ lines.map LaidLine.chars, '\n' ∉ cs := by
    intro cs mem
    obtain ⟨l, known, rfl⟩ := List.mem_map.mp mem
    have text : '\n' ∉ l.text.toList := h l known
    simp [LaidLine.chars, text]
  have whole : lines.flatMap (fun l => l.chars ++ ['\n'])
      = (lines.map LaidLine.chars).flatMap (· ++ ['\n']) := by
    rw [List.flatMap_map]
  rw [Text.linesOf, sheetText, String.toList_ofList, whole, Text.splitOn_lines clean]

/-- The text of a sheet has as many line feeds as the sheet has lines. -/
theorem count_sheetText {lines : List LaidLine} (h : ∀ l ∈ lines, Text.IsOneLine l.text) :
    (sheetText lines).toList.count '\n' = lines.length := by
  have one : lines.map (List.count '\n' ∘ fun l => l.chars ++ ['\n']) = lines.map fun _ => 1 := by
    refine List.map_congr_left fun l mem => ?_
    have text : l.text.toList.count '\n' = 0 := List.count_eq_zero.mpr (h l mem)
    simp [LaidLine.chars, text, List.count_replicate]
  rw [sheetText, String.toList_ofList, List.count_flatMap, one]
  simp

/-- The number of a line is its place in the text. -/
theorem getElem?_linesOf_sheetText (h : ∀ l ∈ lay unit depth 0 strokes, Text.IsOneLine l.text)
    (mem : l ∈ lay unit depth 0 strokes) :
    1 ≤ l.number
      ∧ (Text.linesOf (sheetText (lay unit depth 0 strokes)))[l.number - 1]? = some l.chars := by
  obtain ⟨counted, here⟩ := getElem?_number_lay mem
  have bound := (List.getElem?_eq_some_iff.mp here).1
  refine ⟨counted, ?_⟩
  rw [linesOf_sheetText h, List.getElem?_append_left (by simpa using bound), List.getElem?_map,
    here]
  rfl

end StrategyCanvas.Code
