import Mathlib.Tactic.Tauto
import StrategyCanvas.Proofs.Decimal.Layout
import StrategyCanvas.Proofs.Text.Slug
import StrategyCanvas.Text.Blank
import StrategyCanvas.Text.Identifier
import StrategyCanvas.Text.Quoted

/-!
# Texts on one line

Whatever the texts of a strategy contain, what is made of them for generated code has no line feed:
quoted texts and comments are cleaned, and names are words of letters, digits and underscores. Lines
without line feeds can be read back from the text that they make up (`splitOn_lines`).
-/

namespace StrategyCanvas.Text

/-- The lines of a text, split at every line feed. -/
def linesOf (s : String) : List (List Char) := s.toList.splitOn '\n'

/-- Lines without line feeds, each ended by one, are read back, with nothing after the last. -/
theorem splitOn_lines {lines : List (List Char)} (h : ∀ l ∈ lines, '\n' ∉ l) :
    (lines.flatMap (· ++ ['\n'])).splitOn '\n' = lines ++ [[]] := by
  rw [List.splitOn_eq_splitOnP]
  induction lines with
  | nil => rfl
  | cons l rest ih =>
    have here : l.splitOnP (· == '\n') = [l] := by
      refine List.splitOnP_eq_singleton fun c mem => beq_false_of_ne ?_
      rintro rfl
      exact h l List.mem_cons_self mem
    rw [List.flatMap_cons, List.append_assoc, List.singleton_append,
      List.splitOnP_append_cons (p := (· == '\n')) l _ (beq_self_eq_true _), here,
      ih fun l mem => h l (List.mem_cons_of_mem _ mem)]
    rfl

/-! ## Line feeds -/

/-- A text without a line feed. -/
def IsOneLine (s : String) : Prop := '\n' ∉ s.toList

instance (s : String) : Decidable (IsOneLine s) := inferInstanceAs (Decidable ('\n' ∉ s.toList))

/-- Texts on one line make one line together. -/
@[simp] theorem isOneLine_append {s t : String} :
    IsOneLine (s ++ t) ↔ IsOneLine s ∧ IsOneLine t := by
  simp [IsOneLine]

/-- A text that is given by its characters can be told to be on one line by looking at them. -/
theorem isOneLine_ofList {cs : List Char} (h : '\n' ∉ cs) : IsOneLine (String.ofList cs) := by
  rwa [IsOneLine, String.toList_ofList]

/-- Any number of texts on one line make one line together. -/
theorem isOneLine_join {parts : List String} (h : ∀ s ∈ parts, IsOneLine s) :
    IsOneLine (String.join parts) := by
  simpa [IsOneLine, String.toList_join] using h

/-- A text that has been put on one line has no line feed left. -/
@[simp] theorem isOneLine_oneLine (s : String) : IsOneLine (oneLine s) := by
  simp only [IsOneLine, oneLine, String.toList_ofList, List.mem_map, not_exists, not_and]
  intro c _ same
  split at same
  · contradiction
  · rename_i visible
    rw [same] at visible
    contradiction

/-! ## Numbers -/

@[simp] theorem isOneLine_toString (n : Nat) : IsOneLine (toString n) := by
  rw [IsOneLine, Nat.toString_eq_ofList_toDigits, String.toList_ofList]
  exact Decimal.not_mem_toDigits (by decide) (fun _ => Nat.digitChar_ne '\n' (by decide)) n

/-- Digits, signs and points stand on one line. -/
theorem isOneLine_finiteText (l : Decimal.Layout) (b : Decimal.Binary) :
    IsOneLine (String.ofList (l.finiteText b)) := by
  refine isOneLine_ofList fun mem => ?_
  have numeral := Decimal.Layout.isNumeralChar_of_mem_finiteText b _ mem
  contradiction

/-! ## Quoted texts -/

/-- A line feed in a literal is written as an escape. -/
theorem lineFeed_not_mem_quoteChar (c : Char) : '\n' ∉ quoteChar c := by
  unfold quoteChar
  iterate 6
    split
    · decide
  split
  · have digits := Decimal.not_mem_toDigits (show 1 < 16 by decide)
      (fun _ => Nat.digitChar_ne '\n' (by decide)) c.toNat
    simp [codePointEscape, digits]
  · rename_i other _ _ _
    simpa using Ne.symm other

/-- A literal is on one line, whatever it says. -/
@[simp] theorem isOneLine_quote (s : String) : IsOneLine (quote s) := by
  simp [IsOneLine, quote, lineFeed_not_mem_quoteChar]

/-! ## Words -/

/-- A text of letters, digits and underscores. -/
def IsWord (s : String) : Prop := ∀ c ∈ s.toList, isIdentifierChar c = true

instance (s : String) : Decidable (IsWord s) :=
  decidable_of_iff (s.toList.all isIdentifierChar = true) List.all_eq_true

@[simp] theorem isWord_append {s t : String} : IsWord (s ++ t) ↔ IsWord s ∧ IsWord t := by
  simp [IsWord, or_imp, forall_and]

/-- A word is on one line. -/
theorem IsWord.isOneLine {s : String} (h : IsWord s) : IsOneLine s := by
  intro mem
  have := h _ mem
  contradiction

/-- Slugs are made of characters of words. -/
theorem isIdentifierChar_of_isSlugChar {c : Char} (h : isSlugChar c = true) :
    isIdentifierChar c = true := by
  simp only [isSlugChar, Bool.or_eq_true, decide_eq_true_eq] at h
  show (c = '_' || (c.isUpper || c.isLower || c.isDigit)) = true
  simp only [Bool.or_eq_true, decide_eq_true_eq]
  tauto

/-- A slug is a word. -/
@[simp] theorem isWord_slug (name : String) : IsWord (slug name) :=
  fun _ mem => isIdentifierChar_of_isSlugChar (isSlugChar_of_mem_slug mem)

/-- A handle is a word. -/
@[simp] theorem isWord_handle (name : String) : IsWord (handle name) := by
  unfold handle
  dsimp only
  split
  · split
    · rw [isWord_append]
      exact ⟨by decide, isWord_slug name⟩
    · exact isWord_slug name
  · exact isWord_slug name

@[simp] theorem isWord_toString (n : Nat) : IsWord (toString n) := by
  intro c mem
  rw [Nat.toString_eq_ofList_toDigits, String.toList_ofList] at mem
  have digit := Nat.isDigit_of_mem_toDigits (by decide) (by decide) mem
  simp [isIdentifierChar, Char.isAlphanum, digit]

/-- An identifier is a word. -/
theorem isWord_of_isIdentifier {name : String} (h : isIdentifier name = true) : IsWord name := by
  unfold isIdentifier at h
  split at h
  · contradiction
  · rename_i c cs chars
    simp only [Bool.and_eq_true, List.all_eq_true] at h
    obtain ⟨⟨⟨first, -⟩, rest⟩, -⟩ := h
    intro a mem
    rw [chars, List.mem_cons] at mem
    rcases mem with rfl | mem
    · simp only [Bool.or_eq_true, decide_eq_true_eq] at first
      simp only [isIdentifierChar, Char.isAlphanum, Bool.or_eq_true, decide_eq_true_eq]
      tauto
    · exact rest a mem

/-- The characters of a path are colons, or they belong to one of its segments. -/
theorem mem_splitPath {cs : List Char} {c : Char} (h : c ∈ cs) :
    c = ':' ∨ ∃ segment ∈ splitPath cs, c ∈ segment := by
  fun_induction splitPath cs with
  | case1 => contradiction
  | case2 cs ih =>
    simp only [List.mem_cons] at h
    rcases h with rfl | rfl | h
    · exact .inl rfl
    · exact .inl rfl
    · exact (ih h).imp_right fun ⟨segment, mem, inside⟩ =>
        ⟨segment, List.mem_cons_of_mem _ mem, inside⟩
  | case3 a cs _ none ih =>
    rcases List.mem_cons.mp h with rfl | later
    · exact .inr ⟨[c], by simp, by simp⟩
    · have colon : c = ':' := by simpa [none] using ih later
      exact .inl colon
  | case4 a cs _ segment segments some ih =>
    rw [some] at ih
    rcases List.mem_cons.mp h with rfl | later
    · exact .inr ⟨_, List.mem_cons_self, List.mem_cons_self⟩
    · refine (ih later).imp_right fun ⟨other, mem, inside⟩ => ?_
      rcases List.mem_cons.mp mem with rfl | mem
      · exact ⟨_, List.mem_cons_self, List.mem_cons_of_mem _ inside⟩
      · exact ⟨other, List.mem_cons_of_mem _ mem, inside⟩

/-- Whether a path of identifiers can have the character. -/
def isPathChar (c : Char) : Bool := c = ':' || isIdentifierChar c

/-- A module path has only characters of words, and colons. -/
theorem isPathChar_of_isModulePath {path : String} (h : isModulePath path = true) :
    ∀ c ∈ path.toList, isPathChar c = true := by
  intro c mem
  rcases mem_splitPath mem with rfl | ⟨segment, known, inside⟩
  · rfl
  · have word := isWord_of_isIdentifier (List.all_eq_true.mp h segment known)
    have letter := word c (by rwa [String.toList_ofList])
    simp [isPathChar, letter]

/-- A module path is on one line. -/
theorem isOneLine_of_isModulePath {path : String} (h : isModulePath path = true) :
    IsOneLine path := by
  intro mem
  have path := isPathChar_of_isModulePath h _ mem
  contradiction

/-! ## First characters -/

/-- Whether a text begins with a character that is not a space. -/
def beginsSolid (s : String) : Bool := s.toList.head?.any (· ≠ ' ')

/-- What stands at the front decides how a line begins. -/
theorem beginsSolid_append {s : String} (h : beginsSolid s = true) (t : String) :
    beginsSolid (s ++ t) = true := by
  unfold beginsSolid at h ⊢
  rw [String.toList_append]
  cases chars : s.toList with
  | nil =>
    rw [chars] at h
    contradiction
  | cons c cs => simpa [chars] using h

/-- A line of code: a text without a line feed that begins with a character other than a space. -/
structure IsCodeLine (s : String) : Prop where
  isOneLine : IsOneLine s
  solid : beginsSolid s = true

instance (s : String) : Decidable (IsCodeLine s) :=
  decidable_of_iff (IsOneLine s ∧ beginsSolid s = true) ⟨fun h => ⟨h.1, h.2⟩, fun h => ⟨h.1, h.2⟩⟩

/-- A line of code may go on with any text on one line. -/
theorem IsCodeLine.append {s t : String} (h : IsCodeLine s) (line : IsOneLine t) :
    IsCodeLine (s ++ t) :=
  ⟨isOneLine_append.mpr ⟨h.isOneLine, line⟩, beginsSolid_append h.solid t⟩

/-- A line of code may begin with a literal. -/
theorem isCodeLine_quote (s : String) : IsCodeLine (quote s) := by
  refine ⟨isOneLine_quote s, ?_⟩
  rw [beginsSolid, quote, String.toList_ofList]
  rfl

end StrategyCanvas.Text
