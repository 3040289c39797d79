import StrategyCanvas.Text.Identifier

/-!
# Whole occurrences

An expression occurs whole in a text if it stands there and is not the front part of a longer
identifier. Looking for a whole occurrence finds one, and finds one if there is any, namely the
first (`wholeOffset?_eq_some_iff`).
-/

namespace StrategyCanvas.Text

variable {expr text : List Char}

/-- The text is the expression, with nothing behind it that would make it part of a longer
identifier. -/
def BeginsWhole (expr text : List Char) : Prop :=
  ∃ rest, text = expr ++ rest ∧ ∀ c ∈ rest.head?, isIdentifierChar c = false

theorem startsWithWhole_iff : startsWithWhole expr text = true ↔ BeginsWhole expr text := by
  unfold startsWithWhole BeginsWhole
  rw [Bool.and_eq_true, List.isPrefixOf_iff_prefix]
  constructor
  · rintro ⟨⟨rest, rfl⟩, ends⟩
    refine ⟨rest, rfl, fun c first => ?_⟩
    rw [List.drop_left] at ends
    simpa [Option.mem_def.mp first] using ends
  · rintro ⟨rest, rfl, ends⟩
    refine ⟨List.prefix_append expr rest, ?_⟩
    rw [List.drop_left]
    cases first : rest.head? with
    | none => rfl
    | some c => simp [ends c first]

/-- What is found is a whole occurrence. -/
theorem beginsWhole_of_wholeOffset? {k : Nat} (h : wholeOffset? expr text = some k) :
    BeginsWhole expr (text.drop k) := by
  rw [← startsWithWhole_iff]
  induction text generalizing k with
  | nil =>
    unfold wholeOffset? at h
    split at h
    · simpa
    · contradiction
  | cons c cs ih =>
    unfold wholeOffset? at h
    split at h
    · rename_i here
      obtain rfl := Option.some.inj h
      exact here
    · obtain ⟨j, later, rfl⟩ := Option.map_eq_some_iff.mp h
      exact ih later

/-- Where an expression occurs whole, a whole occurrence is found. -/
theorem exists_wholeOffset? (front : List Char) (h : BeginsWhole expr text) :
    ∃ k, wholeOffset? expr (front ++ text) = some k := by
  rw [← startsWithWhole_iff] at h
  induction front with
  | nil =>
    cases text with
    | nil => exact ⟨0, if_pos h⟩
    | cons c cs => exact ⟨0, if_pos h⟩
  | cons c front ih =>
    obtain ⟨k, found⟩ := ih
    rw [List.cons_append, wholeOffset?, found]
    split
    · exact ⟨0, rfl⟩
    · exact ⟨k + 1, rfl⟩

/-! ## The first whole occurrence -/

theorem BeginsWhole.isPrefix (h : BeginsWhole expr text) : expr <+: text := by
  obtain ⟨rest, rfl, -⟩ := h
  exact List.prefix_append expr rest

theorem beginsWhole_append_iff :
    BeginsWhole expr (expr ++ text) ↔ text.head?.any isIdentifierChar = false := by
  constructor
  · rintro ⟨rest, same, ends⟩
    rw [← List.append_cancel_left same] at ends
    cases first : text.head? with
    | none => rfl
    | some c => exact ends c first
  · intro ends
    refine ⟨text, rfl, fun c first => ?_⟩
    rwa [Option.mem_def.mp first] at ends

/-- The place that is found is the first one. -/
theorem wholeOffset?_eq_some_iff {k : Nat} : wholeOffset? expr text = some k
    ↔ (k ≤ text.length ∧ BeginsWhole expr (text.drop k))
      ∧ ∀ i < k, ¬ BeginsWhole expr (text.drop i) := by
  induction text generalizing k with
  | nil =>
    rw [wholeOffset?, List.drop_nil, ← startsWithWhole_iff]
    cases k with
    | zero => simp
    | succ k => simp
  | cons c cs ih =>
    rw [wholeOffset?]
    by_cases here : startsWithWhole expr (c :: cs) = true
    · rw [if_pos here, Option.some.injEq]
      constructor
      · rintro rfl
        exact ⟨⟨Nat.zero_le _, startsWithWhole_iff.mp here⟩, by simp⟩
      · rintro ⟨-, first⟩
        cases k with
        | zero => rfl
        | succ k => exact absurd (startsWithWhole_iff.mp here) (first 0 (Nat.succ_pos k))
    · rw [if_neg here, Option.map_eq_some_iff]
      rw [startsWithWhole_iff] at here
      cases k with
      | zero => simp [here]
      | succ k =>
        have next : (∃ j, wholeOffset? expr cs = some j ∧ j + 1 = k + 1)
            ↔ wholeOffset? expr cs = some k := by simp
        rw [next, ih, List.length_cons, Nat.add_le_add_iff_right, List.drop_succ_cons]
        refine and_congr_right fun _ => ⟨fun first i less => ?_, fun first i less => ?_⟩
        · cases i with
          | zero => exact here
          | succ i => exact first i (Nat.lt_of_succ_lt_succ less)
        · exact first (i + 1) (Nat.succ_lt_succ less)

theorem wholeOffset?_eq_none_iff : wholeOffset? expr text = none
    ↔ ∀ k ≤ text.length, ¬ BeginsWhole expr (text.drop k) := by
  constructor
  · intro none k bound begins
    obtain ⟨j, found⟩ := exists_wholeOffset? (text.take k) begins
    rw [List.take_append_drop, none] at found
    contradiction
  · intro nowhere
    cases found : wholeOffset? expr text with
    | none => rfl
    | some k =>
      obtain ⟨⟨bound, begins⟩, -⟩ := wholeOffset?_eq_some_iff.mp found
      exact absurd begins (nowhere k bound)

/-- Nothing is found in front of the place where the first occurrence can begin. -/
theorem wholeOffset?_append (front : List Char)
    (nowhere : ∀ k < front.length, ¬ BeginsWhole expr ((front ++ text).drop k)) :
    wholeOffset? expr (front ++ text) = (wholeOffset? expr text).map (· + front.length) := by
  induction front with
  | nil => simp
  | cons c front ih =>
    have notHere : ¬ startsWithWhole expr (c :: (front ++ text)) = true := fun here =>
      nowhere 0 (Nat.succ_pos _) (startsWithWhole_iff.mp here)
    rw [List.cons_append, wholeOffset?, if_neg notHere,
      ih fun k less => nowhere (k + 1) (Nat.succ_lt_succ less), Option.map_map]
    rfl

section Round

variable {before behind : List Char}
  (first : ∀ k < before.length, ¬ expr <+: (before ++ (expr ++ behind)).drop k)

include first

/-- The first occurrence is found if it is whole. -/
theorem wholeOffset?_of_whole (ends : behind.head?.any isIdentifierChar = false) :
    wholeOffset? expr (before ++ (expr ++ behind)) = some before.length := by
  refine wholeOffset?_eq_some_iff.mpr ⟨⟨by simp, ?_⟩, fun k less begins =>
    first k less begins.isPrefix⟩
  rw [List.drop_left]
  exact beginsWhole_append_iff.mpr ends

/-- If the first occurrence is not whole, what is found begins behind its first character. -/
theorem wholeOffset?_of_not_whole (goesOn : behind.head?.any isIdentifierChar = true) {c : Char}
    {more : List Char} (split : expr ++ behind = c :: more) :
    wholeOffset? expr (before ++ (expr ++ behind))
      = (wholeOffset? expr more).map (· + (before.length + 1)) := by
  have chars : before ++ (expr ++ behind) = (before ++ [c]) ++ more := by
    rw [split, List.append_assoc, List.singleton_append]
  rw [chars, wholeOffset?_append, List.length_append, List.length_singleton]
  intro k less begins
  rw [← chars] at begins
  rw [List.length_append, List.length_singleton] at less
  rcases Nat.lt_or_eq_of_le (Nat.le_of_lt_succ less) with earlier | rfl
  · exact first k earlier begins.isPrefix
  · rw [List.drop_left, beginsWhole_append_iff, goesOn] at begins
    contradiction

end Round

end StrategyCanvas.Text
