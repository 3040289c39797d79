import StrategyCanvas.Text.Slug

/-!
# The characters of a slug

A slug has no characters but lower-case letters, digits and underscores. What joins a slug to
something else with another character can therefore be taken apart again.
-/

namespace StrategyCanvas.Text

/-! ## Runs -/

/-- No part of a split list has an element to split at. -/
theorem forall_of_mem_splitOnP {α : Type} {p : α → Bool} {as run : List α}
    (h : run ∈ as.splitOnP p) : ∀ a ∈ run, p a = false := by
  induction as generalizing run with
  | nil =>
    rw [List.splitOnP_nil, List.mem_singleton] at h
    simp [h]
  | cons a rest ih =>
    rw [List.splitOnP_cons_eq_if_modifyHead] at h
    split at h
    · rcases List.mem_cons.mp h with rfl | later
      · simp
      · exact ih later
    · rename_i kept
      -- the element joins the first part of the rest
      cases parts : rest.splitOnP p with
      | nil => exact absurd parts (List.splitOnP_ne_nil p rest)
      | cons first others =>
        rw [parts] at h ih
        rcases List.mem_cons.mp h with rfl | later
        · rw [List.forall_mem_cons]
          exact ⟨by simpa using kept, ih List.mem_cons_self⟩
        · exact ih (List.mem_cons_of_mem _ later)

theorem isAlphanum_of_mem_alphanumericRuns {cs run : List Char} (h : run ∈ alphanumericRuns cs) :
    ∀ c ∈ run, c.isAlphanum = true := by
  intro c mem
  have := forall_of_mem_splitOnP (List.mem_filter.mp h).1 c mem
  simpa using this

theorem mem_intercalate {α : Type} {sep : List α} {parts : List (List α)} {a : α}
    (h : a ∈ sep.intercalate parts) : a ∈ sep ∨ ∃ part ∈ parts, a ∈ part := by
  induction parts with
  | nil => contradiction
  | cons part rest ih =>
    cases rest with
    | nil =>
      rw [List.intercalate_singleton] at h
      exact .inr ⟨part, List.mem_cons_self, h⟩
    | cons next rest =>
      rw [List.intercalate_cons_cons, List.mem_append, List.mem_append] at h
      rcases h with (here | between) | later
      · exact .inr ⟨part, List.mem_cons_self, here⟩
      · exact .inl between
      · rcases ih later with between | ⟨other, mem, inside⟩
        · exact .inl between
        · exact .inr ⟨other, List.mem_cons_of_mem _ mem, inside⟩

/-! ## Characters -/

/-- Whether a slug can have the character. -/
def isSlugChar (c : Char) : Bool := c = '_' || c.isLower || c.isDigit

/-- In lower case a letter is a small letter, and a digit stays one. -/
theorem isLower_or_isDigit_toLower {c : Char} (h : c.isAlphanum = true) :
    c.toLower.isLower = true ∨ c.toLower.isDigit = true := by
  unfold Char.toLower
  split
  · rename_i upper
    obtain ⟨low, high⟩ := upper
    rw [ge_iff_le, UInt32.le_iff_toNat_le] at low
    rw [UInt32.le_iff_toNat_le] at high
    have low' : 65 ≤ c.val.toNat := low
    have high' : c.val.toNat ≤ 90 := high
    have lower : (c.val + 32).toNat = c.val.toNat + 32 := by
      rw [UInt32.toNat_add]
      exact Nat.mod_eq_of_lt (by show c.val.toNat + 32 < 4294967296; omega)
    refine .inl ?_
    show (decide (97 ≤ c.val + 32) && decide (c.val + 32 ≤ 122)) = true
    rw [Bool.and_eq_true, decide_eq_true_eq, decide_eq_true_eq, UInt32.le_iff_toNat_le,
      UInt32.le_iff_toNat_le, lower]
    constructor
    · show 97 ≤ c.val.toNat + 32
      omega
    · show c.val.toNat + 32 ≤ 122
      omega
  · rename_i notUpper
    have upper : c.isUpper = false := decide_eq_false notUpper
    change (c.isUpper || c.isLower || c.isDigit) = true at h
    rwa [upper, Bool.false_or, Bool.or_eq_true] at h

theorem isSlugChar_toLower {c : Char} (h : c.isAlphanum = true) : isSlugChar c.toLower = true := by
  simp only [isSlugChar, Bool.or_eq_true, or_assoc]
  exact .inr (isLower_or_isDigit_toLower h)

/-- The characters of a slug are lower-case letters, digits and underscores. -/
theorem isSlugChar_of_mem_slug {name : String} {c : Char} (h : c ∈ (slug name).toList) :
    isSlugChar c = true := by
  unfold slug at h
  split at h
  · have all : "block".toList.all isSlugChar = true := by decide
    exact List.all_eq_true.mp all c h
  · rw [String.toList_ofList] at h
    rcases mem_intercalate h with between | ⟨part, mem, inside⟩
    · rw [List.mem_singleton.mp between]
      rfl
    · obtain ⟨run, known, rfl⟩ := List.mem_map.mp mem
      obtain ⟨original, within, rfl⟩ := List.mem_map.mp inside
      exact isSlugChar_toLower (isAlphanum_of_mem_alphanumericRuns known original within)

end StrategyCanvas.Text
