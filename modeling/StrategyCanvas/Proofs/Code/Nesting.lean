import StrategyCanvas.Code.Program
import StrategyCanvas.Proofs.Code.Arrangement
import StrategyCanvas.Proofs.Code.Writer

/-!
# Nested strokes

Where strokes close what they open, an opening has its own closing further down, nothing is closed
at the margin, and the margin is where they end (`isNested_of_closes`). This holds of the strokes of
every rule (`Rule.closes_update`) and of every program (`Program.closes_entries`).
-/

namespace StrategyCanvas.Code

open Text

variable {α β : Type}

namespace Stroke

/-- Whether a stroke neither opens nor closes anything. -/
def isFlat : Stroke α → Bool
  | line _ | lineAt _ _ | blank => true
  | opening _ | closing _ => false

/-- A stroke is flat, or it opens something, or it closes something. -/
theorem flat_or (s : Stroke α) :
    s.isFlat = true ∨ (∃ t, s = .opening t) ∨ ∃ u, s = .closing u := by
  cases s with
  | line _ | lineAt _ _ | blank => exact .inl rfl
  | opening t => exact .inr (.inl ⟨t, rfl⟩)
  | closing u => exact .inr (.inr ⟨u, rfl⟩)

theorem isFlat_map (f : α → β) (s : Stroke α) : (s.map f).isFlat = s.isFlat := by
  cases s <;> rfl

/-- A flat stroke leaves the depth as it is. -/
theorem depthAfter_of_isFlat {s : Stroke α} (flat : s.isFlat = true) (depth : Nat) :
    s.depthAfter depth = depth := by
  cases s <;> first | contradiction | rfl

end Stroke

/-- Whether strokes close everything that they open and some pending openings besides, and nothing
more than that. -/
def closes : Nat → List (Stroke α) → Bool
  | pending, [] => pending = 0
  | pending, .line _ :: rest | pending, .lineAt _ _ :: rest | pending, .blank :: rest =>
    closes pending rest
  | pending, .opening _ :: rest => closes (pending + 1) rest
  | 0, .closing _ :: _ => false
  | pending + 1, .closing _ :: rest => closes pending rest

/-- Each opening is closed by a later stroke, with nothing in between that is not closed itself.
Nothing is closed at the margin, and the strokes end there. -/
structure IsNested (strokes : List (Stroke α)) : Prop where
  closed : ∀ front t rest, strokes = front ++ .opening t :: rest →
    ∃ inner u behind, rest = inner ++ .closing u :: behind ∧ closes 0 inner = true
  opened : ∀ front u rest, strokes = front ++ .closing u :: rest →
    0 < front.foldl Stroke.depthAfter 0
  ended : strokes.foldl Stroke.depthAfter 0 = 0

/-! ## Closing -/

section

variable {strokes more front rest : List (Stroke α)} {s : Stroke α} {m n : Nat} {t u : α}

@[simp] theorem closes_nil : closes n ([] : List (Stroke α)) = decide (n = 0) := by
  simp [closes]

/-- Flat strokes can be left out. -/
theorem closes_of_isFlat (flat : s.isFlat = true) : closes n (s :: rest) = closes n rest := by
  cases s <;> first | contradiction | simp [closes]

@[simp] theorem closes_line : closes n (.line t :: rest) = closes n rest := closes_of_isFlat rfl

@[simp] theorem closes_blank : closes n (.blank :: rest) = closes n rest := closes_of_isFlat rfl

@[simp] theorem closes_opening : closes n (.opening t :: rest) = closes (n + 1) rest := by
  simp [closes]

/-- With nothing pending, there is nothing to close. -/
@[simp] theorem closes_closing_zero : closes 0 (.closing u :: rest) = false := by
  simp [closes]

/-- A closing stroke takes care of the inmost pending opening. -/
@[simp] theorem closes_closing : closes (n + 1) (.closing u :: rest) = closes n rest := by
  simp [closes]

/-- The texts of strokes do not matter. -/
theorem closes_map (f : α → β) : closes n (strokes.map (Stroke.map f)) = closes n strokes := by
  induction strokes generalizing n with
  | nil => simp
  | cons s rest ih =>
    rw [List.map_cons]
    rcases s.flat_or with flat | ⟨t, rfl⟩ | ⟨u, rfl⟩
    · rw [closes_of_isFlat (flat.symm ▸ s.isFlat_map f), closes_of_isFlat flat, ih]
    · rw [closes_opening, ← ih]
      exact closes_opening
    · cases n with
      | zero => exact closes_closing_zero.trans closes_closing_zero.symm
      | succ n =>
        rw [closes_closing, ← ih]
        exact closes_closing

/-- Strokes that close what they open leave everything to those behind them. -/
theorem closes_append (h : closes m strokes = true) :
    closes (m + n) (strokes ++ more) = closes n more := by
  induction strokes generalizing m with
  | nil =>
    obtain rfl : m = 0 := by simpa using h
    rw [Nat.zero_add, List.nil_append]
  | cons s rest ih =>
    rw [List.cons_append]
    rcases s.flat_or with flat | ⟨t, rfl⟩ | ⟨u, rfl⟩
    · rw [closes_of_isFlat flat] at h ⊢
      exact ih h
    · rw [closes_opening] at h ⊢
      rw [Nat.add_right_comm]
      exact ih h
    · cases m with
      | zero => simp at h
      | succ m =>
        rw [closes_closing] at h
        rw [Nat.add_right_comm, closes_closing]
        exact ih h

/-- What is pending behind some strokes is as many openings as there are levels of depth. -/
theorem closes_behind (h : closes n (front ++ rest) = true) :
    closes (front.foldl Stroke.depthAfter n) rest = true := by
  induction front generalizing n with
  | nil => exact h
  | cons s front ih =>
    rw [List.cons_append] at h
    rw [List.foldl_cons]
    rcases s.flat_or with flat | ⟨t, rfl⟩ | ⟨u, rfl⟩
    · rw [closes_of_isFlat flat] at h
      rw [Stroke.depthAfter_of_isFlat flat]
      exact ih h
    · rw [closes_opening] at h
      exact ih h
    · cases n with
      | zero => simp at h
      | succ n =>
        rw [closes_closing] at h
        exact ih h

/-- Of some openings that are pending, the inmost is closed first. -/
theorem exists_closing (h : closes (m + 1 + n) strokes = true) :
    ∃ inner u behind, strokes = inner ++ .closing u :: behind ∧ closes m inner = true := by
  induction strokes generalizing m with
  | nil => simp at h
  | cons s rest ih =>
    rcases s.flat_or with flat | ⟨t, rfl⟩ | ⟨u, rfl⟩
    · rw [closes_of_isFlat flat] at h
      obtain ⟨inner, u, behind, rfl, closed⟩ := ih h
      exact ⟨s :: inner, u, behind, rfl, (closes_of_isFlat flat).trans closed⟩
    · rw [closes_opening, Nat.add_right_comm] at h
      obtain ⟨inner, u, behind, rfl, closed⟩ := ih h
      exact ⟨.opening t :: inner, u, behind, rfl, closes_opening.trans closed⟩
    · cases m with
      | zero => exact ⟨[], u, rest, rfl, closes_nil⟩
      | succ m =>
        rw [Nat.add_right_comm, closes_closing] at h
        obtain ⟨inner, v, behind, rfl, closed⟩ := ih h
        exact ⟨.closing u :: inner, v, behind, rfl, closes_closing.trans closed⟩

/-- Strokes that close what they open, and nothing more, are nested. -/
theorem isNested_of_closes (h : closes 0 strokes = true) : IsNested strokes where
  closed front t rest split := by
    rw [split] at h
    have pending := closes_behind h
    rw [closes_opening, Nat.add_comm, ← Nat.zero_add 1] at pending
    exact exists_closing pending
  opened front u rest split := by
    rw [split] at h
    refine Nat.pos_of_ne_zero fun margin => ?_
    have pending := closes_behind h
    rw [margin, closes_closing_zero] at pending
    contradiction
  ended := by
    rw [← List.append_nil strokes] at h
    simpa using closes_behind h

end

/-! ## Rules -/

/-- Every rule closes what it opens. -/
theorem Rule.closes_update (type : BlockType) : closes 0 (Rule.ofType type).update = true := by
  cases type <;> decide

/-- The strokes that the rule of a block gives for it. -/
def BlockView.strokes (v : BlockView) : List (Stroke String) :=
  (Rule.ofType v.plan.type).update.map fun s =>
    s.map fun pieces => String.join (pieces.map v.render)

/-- What a rule writes for a block keeps the openings and closings of the rule. -/
theorem BlockView.closes_strokes (v : BlockView) : closes 0 v.strokes = true := by
  rw [strokes, closes_map]
  exact Rule.closes_update v.plan.type

/-! ## Programs -/

/-- The strokes of entries. -/
def strokesOf (entries : List Entry) : List (Stroke String) := entries.map (·.stroke)

section

variable {es : List Entry} {n : Nat}

theorem strokesOf_nil : strokesOf [] = [] := rfl

theorem strokesOf_cons (e : Entry) (es : List Entry) :
    strokesOf (e :: es) = e.stroke :: strokesOf es := rfl

theorem strokesOf_append (es es' : List Entry) :
    strokesOf (es ++ es') = strokesOf es ++ strokesOf es' := List.map_append

/-- Entries that open nothing and close nothing. -/
theorem closes_of_forall_isFlat (h : ∀ entry ∈ es, entry.stroke.isFlat = true) :
    closes 0 (strokesOf es) = true := by
  induction es with
  | nil => rfl
  | cons e es ih =>
    rw [List.forall_mem_cons] at h
    exact (closes_of_isFlat h.1).trans (ih h.2)

/-- Parts that close what they open do so one after the other. -/
theorem closes_flatMap {γ : Type} {f : γ → List Entry} (h : ∀ x, closes 0 (strokesOf (f x)) = true)
    (xs : List γ) (more : List (Stroke String)) :
    closes n (strokesOf (xs.flatMap f) ++ more) = closes n more := by
  induction xs with
  | nil => rfl
  | cons x xs ih =>
    have here : closes (0 + n) (strokesOf (f x) ++ (strokesOf (xs.flatMap f) ++ more))
        = closes n (strokesOf (xs.flatMap f) ++ more) := closes_append (h x)
    rw [List.flatMap_cons, strokesOf_append, List.append_assoc, ← ih, ← here, Nat.zero_add]

end

namespace Emission

variable (e : Emission)

theorem closes_declarations : closes 0 (strokesOf e.declarations) = true :=
  closes_of_forall_isFlat (by simp [declarations, Entry.ofBlock, Stroke.isFlat])

theorem closes_initializers : closes 0 (strokesOf e.initializers) = true :=
  closes_of_forall_isFlat (by simp [initializers, Entry.ofBlock, Stroke.isFlat])

theorem closes_updates : closes 0 (strokesOf e.updates) = true :=
  closes_of_forall_isFlat
    (by simp [updates, Entry.ofBlock, Entry.ofStatement, Entry.plain, Stroke.isFlat])

theorem closes_resetLines : closes 0 (strokesOf e.resetLines) = true :=
  closes_of_forall_isFlat (by simp [resetLines, Entry.ofBlock, Stroke.isFlat])

theorem closes_getterArms : closes 0 (strokesOf e.getterArms) = true :=
  closes_of_forall_isFlat (by simp [getterArms, Entry.ofBlock, Stroke.isFlat])

/-- A case in braces is closed, and one on a single line opens nothing. -/
theorem closes_setterArm (p : Param) : closes 0 (strokesOf (e.setterArm p)) = true := by
  unfold setterArm
  split <;> rfl

theorem closes_setterArms : closes 0 (strokesOf e.setterArms) = true := by
  have arms := closes_flatMap (n := 0) e.closes_setterArm e.plan.params []
  rwa [List.append_nil] at arms

theorem closes_keyLines : closes 0 (strokesOf e.keyLines) = true :=
  closes_of_forall_isFlat (by simp [keyLines, Entry.ofBlock, Stroke.isFlat])

end Emission

namespace Program

/-- A program closes everything that it opens: each block's part does by itself, and the frame
around them pairs its own openings. -/
theorem closes_entries (p : Program) : closes 0 (strokesOf p.entries) = true := by
  simp only [entries, heading, declaration, functionsOpening, construction, execution, resetting,
    getter, setter, keyList, defaulting, closingBrace, Entry.plain, strokesOf_append,
    strokesOf_cons, strokesOf_nil, List.map_cons, List.map_nil, List.append_assoc,
    List.cons_append, List.nil_append, closes_line, closes_blank, closes_opening, closes_closing,
    closes_nil,
    closes_flatMap Emission.closes_declarations, closes_flatMap Emission.closes_initializers,
    closes_flatMap Emission.closes_updates, closes_flatMap Emission.closes_resetLines,
    closes_flatMap Emission.closes_getterArms, closes_flatMap Emission.closes_setterArms,
    closes_flatMap Emission.closes_keyLines]
  rfl

end Program

/-! ## Writing -/

/-- Whatever is written stroke by stroke, without line feeds of its own, stands line by line in the
finished text, where and how the writer says. The strokes that a program is written with and those
that a rule gives for a block are nested, so that the writer never stops at the margin and ends
there. -/
theorem Writer.line_by_line_and_nested (unit : Nat) :
    (∀ strokes : List (Stroke String), (∀ s ∈ strokes, IsOneLine (s.text?.getD "")) →
      let finished := (stateAfter write (new unit) strokes).text
      finished.toList.count '\n' = strokes.length
      ∧ (linesOf finished).length = strokes.length + 1
      ∧ ∀ k s, strokes[k]? = some s → ∃ line,
        (linesOf finished)[k]? = some line
        ∧ (after unit strokes (k + 1)).text
          = (after unit strokes k).text ++ String.ofList (line ++ ['\n'])
        ∧ match s.text? with
          | some text => ∃ indent, indent = s.level (after unit strokes k).depth * unit
              ∧ (answers write (new unit) strokes)[k]? = some (some ⟨k + 1, indent⟩)
              ∧ line = List.replicate indent ' ' ++ text.toList
          | none => (answers write (new unit) strokes)[k]? = some none ∧ line = [])
    ∧ (∀ p : Program, IsNested (strokesOf p.entries)
      ∧ (stateAfter write (new unit) (strokesOf p.entries)).text = p.text unit
      ∧ (stateAfter write (new unit) (strokesOf p.entries)).depth = 0)
    ∧ (∀ type, IsNested (Rule.ofType type).update)
    ∧ ∀ v e, emit v = .ok e → e.update = statements v.strokes ∧ IsNested v.strokes := by
  refine ⟨fun strokes clean => ?_, fun p => ?_,
    fun type => isNested_of_closes (Rule.closes_update type), fun v e emitted => ?_⟩
  · obtain ⟨count, length, lines⟩ := linesOf_stateAfter clean unit
    exact ⟨count, length, fun k s h => ⟨_, lines k s h, write_next h⟩⟩
  · have nested := isNested_of_closes p.closes_entries
    rw [text_stateAfter, depth_stateAfter]
    exact ⟨nested, rfl, nested.ended⟩
  · rw [(emit_eq_ok_iff.mp emitted).2]
    exact ⟨rfl, isNested_of_closes v.closes_strokes⟩

/-- A function of two lines, one of them indented by one level more. -/
theorem Writer.line_by_line_and_nested_braces :
    let strokes := [.opening "fn f() \x7b", .line "x();", .lineAt 1 "y();", .blank, .closing "\x7d"]
    (∀ s ∈ strokes, IsOneLine (s.text?.getD ""))
    ∧ (stateAfter write (new 2) strokes).text.toList.count '\n' = 5
    ∧ (answers write (new 2) strokes)[2]? = some (some ⟨3, 4⟩)
    ∧ (linesOf (stateAfter write (new 2) strokes).text)[2]? = some "    y();".toList := by
  intro strokes
  have clean : ∀ s ∈ strokes, IsOneLine (s.text?.getD "") := by decide
  obtain ⟨count, -, lines⟩ := (line_by_line_and_nested 2).1 strokes clean
  obtain ⟨line, here, -, indent, spaces, place, chars⟩ := lines 2 _ rfl
  have four : indent = 4 := spaces
  have indented : List.replicate 4 ' ' ++ "y();".toList = "    y();".toList := by decide
  rw [four] at place chars
  refine ⟨clean, count, place, ?_⟩
  rw [here, chars, ← indented]

end StrategyCanvas.Code
