import Mathlib.Computability.Language
import StrategyCanvas.Proofs.Text.Identifier
import StrategyCanvas.Proofs.Text.Slug
import StrategyCanvas.Text.SlugDraft

/-!
# The form of a slug

The maximal runs of letters and digits of a name are unique (`exists_isRuns`,
`IsRuns.alphanumericRuns_eq`). A slug that is written while the name is read is put together from
them (`slugByCharacters_eq`). It consists of words of small letters and digits, joined by single
underscores (`toList_slug_mem_slugForm`), and whatever has this form is its own slug
(`slug_of_mem_slugForm`).
-/

namespace StrategyCanvas.Text

open Computability

variable {c : Char} {cs run : List Char} {runs : List (List Char)}

/-! ## Maximal runs -/

/-- The letters and digits of ASCII. -/
def IsAsciiAlphanumeric (c : Char) : Prop := IsAsciiLetter c ∨ IsAsciiDigit c

/-- The maximal runs of letters and digits of a text, in order. -/
inductive IsRuns : List Char → List (List Char) → Prop
  | nil : IsRuns [] []
  | skip {c : Char} {cs : List Char} {runs : List (List Char)} (other : ¬ IsAsciiAlphanumeric c)
      (rest : IsRuns cs runs) : IsRuns (c :: cs) runs
  | run {run cs : List Char} {runs : List (List Char)} (filled : run ≠ [])
      (within : ∀ c ∈ run, IsAsciiAlphanumeric c) (ends : ∀ c ∈ cs.head?, ¬ IsAsciiAlphanumeric c)
      (rest : IsRuns cs runs) : IsRuns (run ++ cs) (run :: runs)

/-- Every text has runs. -/
theorem exists_isRuns (cs : List Char) : ∃ runs, IsRuns cs runs := by
  induction cs with
  | nil => exact ⟨[], .nil⟩
  | cons c cs ih =>
    obtain ⟨runs, h⟩ := ih
    by_cases alnum : IsAsciiAlphanumeric c
    · have alone : ∀ d ∈ [c], IsAsciiAlphanumeric d := by simpa using alnum
      -- the character begins a run, or goes in front of the first one
      cases h with
      | nil => exact ⟨[[c]], .run (List.cons_ne_nil c []) alone (by simp) .nil⟩
      | skip other rest =>
        exact ⟨[c] :: runs, .run (List.cons_ne_nil c []) alone (by simpa using other)
          (.skip other rest)⟩
      | @run run cs runs _ within ends rest =>
        exact ⟨(c :: run) :: runs, .run (List.cons_ne_nil c run)
          (List.forall_mem_cons.mpr ⟨alnum, within⟩) ends rest⟩
    · exact ⟨runs, .skip alnum h⟩

/-- A character of no run in front changes nothing. -/
theorem alphanumericRuns_cons (other : c.isAlphanum = false) :
    alphanumericRuns (c :: cs) = alphanumericRuns cs := by
  simp [alphanumericRuns, List.splitOnP_cons_eq_if_modifyHead, other]

/-- What is in front of another character is a run of its own. -/
theorem alphanumericRuns_append (filled : run ≠ []) (within : ∀ c ∈ run, c.isAlphanum = true)
    (ends : ∀ c ∈ cs.head?, c.isAlphanum = false) :
    alphanumericRuns (run ++ cs) = run :: alphanumericRuns cs := by
  have kept : ∀ c ∈ run, (!c.isAlphanum) = false := by simpa using within
  cases cs with
  | nil => simp [alphanumericRuns, List.splitOnP_eq_singleton kept, filled]
  | cons sep cs =>
    have other : sep.isAlphanum = false := ends sep rfl
    rw [alphanumericRuns_cons other, alphanumericRuns, alphanumericRuns,
      List.splitOnP_append_cons _ _ (by rw [other]; rfl), List.splitOnP_eq_singleton kept]
    simp [filled]

/-- There are no other maximal runs than the alphanumeric ones. -/
theorem IsRuns.alphanumericRuns_eq (h : IsRuns cs runs) : alphanumericRuns cs = runs := by
  have isAlphanum {c : Char} : c.isAlphanum = true ↔ IsAsciiAlphanumeric c := isAlphanum_iff
  induction h with
  | nil => rfl
  | skip other _ ih =>
    rw [← isAlphanum, Bool.not_eq_true] at other
    rw [alphanumericRuns_cons other, ih]
  | run filled within ends _ ih =>
    simp only [← isAlphanum, Bool.not_eq_true] at within ends
    rw [alphanumericRuns_append filled within ends, ih]

/-- Each run has a character, and only letters and digits. -/
theorem IsRuns.of_mem (h : IsRuns cs runs) (mem : run ∈ runs) :
    run ≠ [] ∧ ∀ c ∈ run, IsAsciiAlphanumeric c := by
  induction h with
  | nil => contradiction
  | skip _ _ ih => exact ih mem
  | run filled within _ _ ih =>
    rcases List.mem_cons.mp mem with rfl | later
    · exact ⟨filled, within⟩
    · exact ih later

/-- Every text has one list of runs and no other. -/
theorem existsUnique_isRuns (cs : List Char) : ∃! runs, IsRuns cs runs := by
  obtain ⟨runs, h⟩ := exists_isRuns cs
  exact ⟨runs, h, fun other h' => by rw [← h.alphanumericRuns_eq, h'.alphanumericRuns_eq]⟩

/-! ## Words joined by underscores -/

/-- The small letters and digits of a run. -/
def lowered (run : List Char) : List Char := run.map Char.toLower

/-- Small letters and digits. -/
def IsSlugLetter (c : Char) : Prop := 'a' ≤ c ∧ c ≤ 'z' ∨ IsAsciiDigit c

/-- Words of at least one small letter or digit. -/
def slugWord : Language Char := {w | w ≠ [] ∧ ∀ c ∈ w, IsSlugLetter c}

/-- Words joined by single underscores. -/
def slugForm : Language Char := slugWord * ({['_']} * slugWord)∗

/-- The letters of a slug are small ones and digits. -/
theorem isSlugLetter_iff : IsSlugLetter c ↔ c.isLower = true ∨ c.isDigit = true := by
  rw [isLower_iff, isDigit_iff]
  rfl

/-- The letters of a slug belong to runs. -/
theorem IsSlugLetter.isAlphanumeric (h : IsSlugLetter c) : IsAsciiAlphanumeric c :=
  h.imp_left .inl

/-- A letter of a slug is its own small letter. -/
theorem IsSlugLetter.toLower_eq (h : IsSlugLetter c) : c.toLower = c := by
  have small : ¬ (c.val ≥ 'A'.val ∧ c.val ≤ 'Z'.val) := by
    rintro ⟨low, high⟩
    rcases h with ⟨fromA, -⟩ | ⟨-, toNine⟩
    · exact absurd (UInt32.le_trans fromA high) (by decide)
    · exact absurd (UInt32.le_trans low toNine) (by decide)
  exact dif_neg small

/-- A word of a slug has small letters already. -/
theorem lowered_of_mem_slugWord {w : List Char} (h : w ∈ slugWord) : lowered w = w :=
  (List.map_congr_left fun c mem => (h.2 c mem).toLower_eq).trans (List.map_id w)

/-- Made small, a letter or digit is a letter of a slug. -/
theorem IsAsciiAlphanumeric.isSlugLetter_toLower (h : IsAsciiAlphanumeric c) :
    IsSlugLetter c.toLower :=
  isSlugLetter_iff.mpr (isLower_or_isDigit_toLower (isAlphanum_iff.mpr h))

/-- The first part stands alone, and each of the others behind a separator. -/
theorem intercalate_cons_eq_append {α : Type} (sep w : List α) (ws : List (List α)) :
    sep.intercalate (w :: ws) = w ++ (ws.map (sep ++ ·)).flatten := by
  induction ws generalizing w with
  | nil => simp
  | cons v ws ih => simp [List.intercalate_cons_cons, ih]

/-- The form is that of a list of words, not empty, with single underscores in between. -/
theorem mem_slugForm_iff : cs ∈ slugForm
    ↔ ∃ ws, ws ≠ [] ∧ (∀ w ∈ ws, w ∈ slugWord) ∧ cs = ['_'].intercalate ws := by
  simp only [slugForm, Language.mem_mul, Language.mem_kstar]
  constructor
  · rintro ⟨w, word, _, ⟨rest, rfl, others⟩, rfl⟩
    have split : ∀ y ∈ rest, y.tail ∈ slugWord ∧ ['_'] ++ y.tail = y := by
      intro y mem
      obtain ⟨_, rfl, v, word, rfl⟩ := others y mem
      exact ⟨word, rfl⟩
    refine ⟨w :: rest.map List.tail, List.cons_ne_nil w _, ?_, ?_⟩
    · rw [List.forall_mem_cons, List.forall_mem_map]
      exact ⟨word, fun y mem => (split y mem).1⟩
    · rw [intercalate_cons_eq_append, List.map_map]
      have same : rest.map ((['_'] ++ ·) ∘ List.tail) = rest :=
        (List.map_congr_left fun y mem => (split y mem).2).trans (List.map_id rest)
      rw [same]
  · rintro ⟨ws, some, words, rfl⟩
    obtain ⟨w, ws, rfl⟩ := List.exists_cons_of_ne_nil some
    rw [List.forall_mem_cons] at words
    refine ⟨w, words.1, _, ⟨ws.map (['_'] ++ ·), rfl, ?_⟩, (intercalate_cons_eq_append ..).symm⟩
    rw [List.forall_mem_map]
    exact fun v mem => ⟨['_'], rfl, v, words.2 v mem, rfl⟩

/-! ## Slugs -/

/-- A slug is the runs of a name in small letters, joined by underscores, or a word that stands for
none. -/
theorem slug_of_isRuns {name : String} (h : IsRuns name.toList runs) :
    slug name = if runs = [] then "block"
      else String.ofList (['_'].intercalate (runs.map lowered)) := by
  rw [slug, h.alphanumericRuns_eq]
  cases runs <;> rfl

/-- Every slug has the form of one. -/
theorem toList_slug_mem_slugForm (name : String) : (slug name).toList ∈ slugForm := by
  obtain ⟨runs, h⟩ := exists_isRuns name.toList
  rw [slug_of_isRuns h]
  split
  · have letters : "block".toList.all (fun c => c.isLower || c.isDigit) = true := by decide
    simp only [List.all_eq_true, Bool.or_eq_true, ← isSlugLetter_iff] at letters
    exact mem_slugForm_iff.mpr ⟨["block".toList], by decide,
      List.forall_mem_singleton.mpr ⟨by decide, letters⟩, rfl⟩
  · rename_i some
    rw [String.toList_ofList, mem_slugForm_iff]
    refine ⟨runs.map lowered, by simpa using some, ?_, rfl⟩
    rw [List.forall_mem_map]
    intro run mem
    obtain ⟨filled, within⟩ := h.of_mem mem
    exact ⟨by simpa [lowered] using filled, by
      rw [lowered, List.forall_mem_map]
      exact fun c mem => (within c mem).isSlugLetter_toLower⟩

/-- A slug begins with a letter or a digit. -/
theorem exists_toList_slug (name : String) :
    ∃ c cs, (slug name).toList = c :: cs ∧ IsSlugLetter c := by
  obtain ⟨w, ⟨filled, letters⟩, rest, -, chars⟩ :=
    Language.mem_mul.mp (toList_slug_mem_slugForm name)
  obtain ⟨c, w, rfl⟩ := List.exists_cons_of_ne_nil filled
  exact ⟨c, w ++ rest, chars.symm, letters c List.mem_cons_self⟩

theorem slug_ne_empty (name : String) : slug name ≠ "" := by
  obtain ⟨c, cs, chars, -⟩ := exists_toList_slug name
  intro none
  rw [none] at chars
  contradiction

/-- A handle starts with a letter. -/
theorem exists_toList_handle (name : String) :
    ∃ c cs, (handle name).toList = c :: cs ∧ IsAsciiLetter c := by
  obtain ⟨c, cs, chars, letter⟩ := exists_toList_slug name
  simp only [handle, chars]
  split
  · refine ⟨'b', '_' :: (c :: cs), by simp [chars], ?_⟩
    rw [← isAlpha_iff]
    rfl
  · rename_i other
    rw [isDigit_iff] at other
    exact ⟨c, cs, chars, .inl (letter.resolve_right other)⟩

/-- Words that are joined by underscores are the runs of the whole. -/
theorem isRuns_intercalate {ws : List (List Char)} (words : ∀ w ∈ ws, w ∈ slugWord) :
    IsRuns (['_'].intercalate ws) ws := by
  induction ws with
  | nil => exact .nil
  | cons w ws ih =>
    rw [List.forall_mem_cons] at words
    have within : ∀ c ∈ w, IsAsciiAlphanumeric c := fun c mem => (words.1.2 c mem).isAlphanumeric
    cases ws with
    | nil =>
      have alone : IsRuns (w ++ []) [w] := .run words.1.1 within (by simp) .nil
      rw [List.intercalate_singleton]
      rwa [List.append_nil] at alone
    | cons v ws =>
      have separator : ¬ IsAsciiAlphanumeric '_' := by
        rw [IsAsciiAlphanumeric, ← isAlphanum_iff]
        decide
      rw [List.intercalate_cons_cons, List.append_assoc]
      exact .run words.1.1 within (by simpa using separator) (.skip separator (ih words.2))

/-- What has the form of a slug is its own slug. -/
theorem slug_of_mem_slugForm {s : String} (h : s.toList ∈ slugForm) : slug s = s := by
  obtain ⟨ws, some, words, chars⟩ := mem_slugForm_iff.mp h
  have runs : IsRuns s.toList ws := chars ▸ isRuns_intercalate words
  have same : ws.map lowered = ws :=
    (List.map_congr_left fun w mem => lowered_of_mem_slugWord (words w mem)).trans (List.map_id ws)
  rw [slug_of_isRuns runs, if_neg some, same, ← chars, String.ofList_toList]

/-! ## Reading a name -/

/-- What is joined to the first part may as well stand for a part of its own. -/
theorem intercalate_cons_append {α : Type} (sep a b : List α) (parts : List (List α)) :
    sep.intercalate ((a ++ sep ++ b) :: parts) = sep.intercalate (a :: b :: parts) := by
  cases parts with
  | nil => simp
  | cons part parts => simp [List.intercalate_cons_cons]

namespace SlugDraft

/-- What is written as a list of parts, none or one. -/
def parts (d : SlugDraft) : List (List Char) := if d.text = "" then [] else [d.text.toList]

/-- A letter or digit is written small, behind an underscore if another run was broken off before
it. -/
theorem read_of_isAlphanum (d : SlugDraft) (alnum : IsAsciiAlphanumeric c) :
    d.read c = ⟨(if d.isPending && !d.text.isEmpty then d.text.push '_' else d.text).push c.toLower,
      false⟩ := by
  rw [read, if_pos (isAlphanum_iff.mpr alnum)]

/-- Any other character breaks a run off. -/
theorem read_of_not_isAlphanum (d : SlugDraft) (other : ¬ IsAsciiAlphanumeric c) :
    d.read c = ⟨d.text, true⟩ := by
  rw [read, if_neg (mt isAlphanum_iff.mp other)]

/-- Within a run every character is written. -/
theorem foldl_read_within {d : SlugDraft} (within : ∀ c ∈ run, IsAsciiAlphanumeric c)
    (begun : d.isPending = false) :
    run.foldl read d = ⟨d.text ++ String.ofList (lowered run), false⟩ := by
  induction run generalizing d with
  | nil =>
    obtain ⟨text, isPending⟩ := d
    obtain rfl : isPending = false := begun
    simp [lowered]
  | cons c run ih =>
    rw [List.forall_mem_cons] at within
    rw [List.foldl_cons, read_of_isAlphanum d within.1, ih within.2 rfl, begun]
    simp [lowered, ← String.toList_inj]

/-- A whole run becomes one more part. -/
theorem intercalate_parts_foldl_read {d : SlugDraft} (filled : run ≠ [])
    (within : ∀ c ∈ run, IsAsciiAlphanumeric c) (ready : d.text = "" ∨ d.isPending = true)
    (more : List (List Char)) :
    ['_'].intercalate ((run.foldl read d).parts ++ more)
      = ['_'].intercalate (d.parts ++ lowered run :: more) := by
  obtain ⟨c, run, rfl⟩ := List.exists_cons_of_ne_nil filled
  rw [List.forall_mem_cons] at within
  rw [List.foldl_cons, read_of_isAlphanum d within.1, foldl_read_within within.2 rfl]
  by_cases none : d.text = ""
  · simp [parts, none, lowered]
  · have due : d.isPending = true := ready.resolve_left none
    have := intercalate_cons_append ['_'] d.text.toList (lowered (c :: run)) more
    simpa [parts, none, due, lowered] using this

/-- Reading character by character puts the runs behind what has been written. -/
theorem toList_foldl_read (h : IsRuns cs runs) {d : SlugDraft}
    (ready : d.text = "" ∨ d.isPending = true ∨ ∀ c ∈ cs.head?, ¬ IsAsciiAlphanumeric c) :
    (cs.foldl read d).text.toList = ['_'].intercalate (d.parts ++ runs.map lowered) := by
  induction h generalizing d with
  | nil =>
    by_cases none : d.text = "" <;> simp [parts, none]
  | skip other _ ih =>
    rw [List.foldl_cons, read_of_not_isAlphanum d other]
    exact ih (.inr (.inl rfl))
  | @run run cs runs filled within ends _ ih =>
    have ready' : d.text = "" ∨ d.isPending = true := by
      rw [← or_assoc] at ready
      refine ready.resolve_right fun begins => ?_
      obtain ⟨c, run, rfl⟩ := List.exists_cons_of_ne_nil filled
      exact begins c rfl (within c List.mem_cons_self)
    rw [List.foldl_append, ih (.inr (.inr ends)),
      intercalate_parts_foldl_read filled within ready']
    rfl

end SlugDraft

/-- A slug that is written while the name is read is the one that is put together from its runs. -/
theorem slugByCharacters_eq (name : String) : slugByCharacters name = slug name := by
  obtain ⟨runs, h⟩ := exists_isRuns name.toList
  have written := SlugDraft.toList_foldl_read h (d := ⟨"", false⟩) (.inl rfl)
  have put := slug_of_isRuns h
  have filled := slug_ne_empty name
  rw [slugByCharacters, SlugDraft.finish]
  cases runs with
  | nil =>
    have none : (name.toList.foldl SlugDraft.read ⟨"", false⟩).text = "" :=
      String.toList_eq_nil_iff.mp written
    rw [put, none]
    rfl
  | cons run runs =>
    rw [if_neg (List.cons_ne_nil run runs)] at put
    have same : (name.toList.foldl SlugDraft.read ⟨"", false⟩).text = slug name := by
      rw [← String.toList_inj, written, put, String.toList_ofList]
      rfl
    rw [same, if_neg (by simpa using filled)]

end StrategyCanvas.Text
