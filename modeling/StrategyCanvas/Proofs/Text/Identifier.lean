import StrategyCanvas.Text.Identifier

/-!
# Identifiers and keywords

The characters of identifiers are ASCII letters, ASCII digits and underscores, and what passes for
an identifier is one (`isIdentifier_iff`). The reserved words are the keywords of the generated
language but for some (`mem_reservedWords_iff`).
-/

namespace StrategyCanvas.Text

/-- The letters from A to Z, small or capital. -/
def IsAsciiLetter (c : Char) : Prop := 'a' ≤ c ∧ c ≤ 'z' ∨ 'A' ≤ c ∧ c ≤ 'Z'

/-- The digits from 0 to 9. -/
def IsAsciiDigit (c : Char) : Prop := '0' ≤ c ∧ c ≤ '9'

/-- A letter or an underscore, and behind it letters, digits and underscores. The underscore alone
is no identifier. -/
def IsAsciiIdentifier (s : String) : Prop :=
  s ≠ "_" ∧ ∃ c cs, s.toList = c :: cs ∧ (c = '_' ∨ IsAsciiLetter c)
    ∧ ∀ d ∈ cs, d = '_' ∨ IsAsciiLetter d ∨ IsAsciiDigit d

/-- The strict keywords of the generated language, in its edition of 2021. -/
def strictKeywords : List String :=
  ["as", "async", "await", "break", "const", "continue", "crate", "dyn", "else", "enum", "extern",
   "false", "fn", "for", "if", "impl", "in", "let", "loop", "match", "mod", "move", "mut", "pub",
   "ref", "return", "self", "Self", "static", "struct", "super", "trait", "true", "type", "unsafe",
   "use", "where", "while"]

/-- The keywords that this edition keeps for later ones. -/
def futureKeywords : List String :=
  ["abstract", "become", "box", "do", "final", "macro", "override", "priv", "try", "typeof",
   "unsized", "virtual", "yield"]

/-- All keywords. None of them names a structure. -/
def keywords : List String := strictKeywords ++ futureKeywords

/-- The keywords that stand for a module or a type, and those for later editions. The list of
reserved words has none of them. -/
def unguardedKeywords : List String := ["crate", "self", "Self", "super"] ++ futureKeywords

theorem isLower_iff {c : Char} : c.isLower = true ↔ 'a' ≤ c ∧ c ≤ 'z' :=
  Bool.and_eq_true_iff.trans (and_congr decide_eq_true_iff decide_eq_true_iff)

theorem isAlpha_iff {c : Char} : c.isAlpha = true ↔ IsAsciiLetter c := by
  have upper : c.isUpper = true ↔ 'A' ≤ c ∧ c ≤ 'Z' := decide_eq_true_iff
  show (c.isUpper || c.isLower) = true ↔ _
  rw [Bool.or_eq_true, upper, isLower_iff, or_comm]
  rfl

theorem isDigit_iff {c : Char} : c.isDigit = true ↔ IsAsciiDigit c := by
  simp [Char.isDigit, IsAsciiDigit, Char.le_def]

theorem isAlphanum_iff {c : Char} : c.isAlphanum = true ↔ IsAsciiLetter c ∨ IsAsciiDigit c := by
  rw [← isAlpha_iff, ← isDigit_iff, ← Bool.or_eq_true]
  rfl

theorem isIdentifierChar_iff {c : Char} :
    isIdentifierChar c = true ↔ c = '_' ∨ IsAsciiLetter c ∨ IsAsciiDigit c := by
  rw [← isAlphanum_iff]
  simp [isIdentifierChar]

/-- What starts with a letter and has an underscore behind it is an identifier, as no reserved word
has an underscore. -/
theorem isIdentifier_of_mem {s : String} {c : Char} {cs : List Char} (chars : s.toList = c :: cs)
    (letter : IsAsciiLetter c) (rest : ∀ d ∈ cs, isIdentifierChar d = true) (joined : '_' ∈ cs) :
    isIdentifier s = true := by
  have reserved : ∀ w ∈ reservedWords, '_' ∉ w.toList := by decide
  have free : s ∉ reservedWords := fun mem =>
    reserved s mem (by rw [chars]; exact List.mem_cons_of_mem c joined)
  have longer : s ≠ "_" := by
    rintro rfl
    have none : cs = [] := by simpa using congrArg List.length chars
    exact List.ne_nil_of_mem joined none
  have alpha := isAlpha_iff.mpr letter
  unfold isIdentifier
  rw [chars]
  simp [alpha, longer, free, List.all_eq_true.mpr rest]

/-- The reserved words are the keywords but for the unguarded ones. -/
theorem mem_reservedWords_iff {s : String} :
    s ∈ reservedWords ↔ s ∈ keywords ∧ s ∉ unguardedKeywords := by
  have guarded : ∀ w ∈ reservedWords, w ∈ keywords ∧ w ∉ unguardedKeywords := by decide
  have listed : ∀ w ∈ keywords, w ∈ unguardedKeywords ∨ w ∈ reservedWords := by decide
  constructor
  · exact guarded s
  · rintro ⟨keyword, other⟩
    exact (listed s keyword).resolve_left other

/-- What passes for an identifier is one, and no keyword that is guarded against. -/
theorem isIdentifier_iff {s : String} : isIdentifier s = true ↔ IsAsciiIdentifier s
    ∧ (s ∉ keywords ∨ s ∈ unguardedKeywords) := by
  have free : s ∉ reservedWords ↔ s ∉ keywords ∨ s ∈ unguardedKeywords := by
    rw [mem_reservedWords_iff, Classical.not_and_iff_not_or_not, Classical.not_not]
  rw [← free]
  unfold isIdentifier IsAsciiIdentifier
  cases s.toList with
  | nil => simp
  | cons c cs =>
    -- the first letter and what follows it are those of the text
    have parts : (∃ c' cs', c :: cs = c' :: cs' ∧ (c' = '_' ∨ IsAsciiLetter c')
          ∧ ∀ d ∈ cs', d = '_' ∨ IsAsciiLetter d ∨ IsAsciiDigit d)
        ↔ (c = '_' ∨ c.isAlpha = true) ∧ cs.all isIdentifierChar = true := by
      simp only [List.all_eq_true, isIdentifierChar_iff, isAlpha_iff]
      constructor
      · rintro ⟨_, _, ⟨rfl, rfl⟩, first, rest⟩
        exact ⟨first, rest⟩
      · rintro ⟨first, rest⟩
        exact ⟨c, cs, rfl, first, rest⟩
    rw [parts]
    simp only [Bool.and_eq_true, Bool.or_eq_true, decide_eq_true_eq, bne_iff_ne,
      Bool.not_eq_true', List.contains_eq_mem, decide_eq_false_iff_not]
    constructor
    · rintro ⟨⟨⟨first, longer⟩, rest⟩, allowed⟩
      exact ⟨⟨longer, first, rest⟩, allowed⟩
    · rintro ⟨⟨longer, first, rest⟩, allowed⟩
      exact ⟨⟨⟨first, longer⟩, rest⟩, allowed⟩

end StrategyCanvas.Text
