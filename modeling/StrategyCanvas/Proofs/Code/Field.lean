import StrategyCanvas.Code.Field
import StrategyCanvas.Proofs.Text.Identifier
import StrategyCanvas.Proofs.Text.Line

/-!
# The code of fields

The name of a field is a letter, an underscore and a word, and so an identifier. Around such a name
every piece of code that declares, sets, reads or converts a field stands on one line, whatever the
value of the field is.
-/

namespace StrategyCanvas.Code

open Text

/-! ## Names -/

/-- The name of a field: a letter that tells what the field is for, an underscore, and a word. -/
def IsFieldName (letter : Char) (s : String) : Prop :=
  letter.isLower = true ∧ ∃ word, s.toList = letter :: '_' :: word
    ∧ ∀ c ∈ word, isIdentifierChar c = true

namespace IsFieldName

variable {letter : Char} {s t : String}

/-- More characters of a word make another name of a field. -/
theorem append (h : IsFieldName letter s) (word : IsWord t) : IsFieldName letter (s ++ t) := by
  obtain ⟨lower, front, chars, first⟩ := h
  exact ⟨lower, front ++ t.toList, by simp [chars], List.forall_mem_append.mpr ⟨first, word⟩⟩

/-- The letter in front is one of the alphabet. -/
theorem isAlpha (h : IsFieldName letter s) : letter.isAlpha = true := by
  show (letter.isUpper || letter.isLower) = true
  rw [h.1, Bool.or_true]

/-- The name of a field is a word. -/
theorem isWord (h : IsFieldName letter s) : IsWord s := by
  have alpha := h.isAlpha
  obtain ⟨-, word, chars, rest⟩ := h
  have first : isIdentifierChar letter = true := by
    simp [isIdentifierChar, Char.isAlphanum, alpha]
  rw [IsWord, chars, List.forall_mem_cons, List.forall_mem_cons]
  exact ⟨first, by decide, rest⟩

theorem ne_empty (h : IsFieldName letter s) : s ≠ "" := by
  obtain ⟨-, word, chars, -⟩ := h
  rintro rfl
  contradiction

/-- The second character is an underscore, so that the name is not `self`. -/
theorem ne_self (h : IsFieldName letter s) : s ≠ "self" := by
  obtain ⟨-, word, chars, -⟩ := h
  rintro rfl
  simp at chars

/-- A line may begin with the name of a field. -/
theorem isCodeLine (h : IsFieldName letter s) : IsCodeLine s := by
  refine ⟨h.isWord.isOneLine, ?_⟩
  obtain ⟨lower, word, chars, -⟩ := h
  have visible : letter ≠ ' ' := by
    rintro rfl
    contradiction
  rw [beginsSolid, chars]
  simpa using visible

/-- The name of a field is an identifier. -/
theorem isIdentifier (h : IsFieldName letter s) : Text.isIdentifier s = true := by
  have alpha := h.isAlpha
  obtain ⟨-, word, chars, rest⟩ := h
  have identifier : ∀ c ∈ '_' :: word, isIdentifierChar c = true :=
    List.forall_mem_cons.mpr ⟨by decide, rest⟩
  exact isIdentifier_of_mem chars (isAlpha_iff.mp alpha) identifier List.mem_cons_self

end IsFieldName

/-! ## Parameters -/

/-- A number is written on one line. -/
theorem isOneLine_numberLiteral (x : Float) : IsOneLine (numberLiteral x) := by
  unfold numberLiteral
  split
  · decide
  · decide
  · decide
  · exact isOneLine_finiteText _ _

theorem isOneLine_booleanLiteral (b : Bool) : IsOneLine (booleanLiteral b) := by
  cases b <;> decide

namespace ParamKind

theorem isOneLine_type (k : ParamKind) : IsOneLine k.type := by
  cases k <;> decide

theorem isOneLine_variant (k : ParamKind) : IsOneLine k.variant := by
  cases k <;> decide

theorem isOneLine_accessor (k : ParamKind) : IsOneLine k.accessor := by
  cases k <;> decide

end ParamKind

namespace Param

variable {p : Param}

/-- A value is written on one line, whatever its text is. -/
theorem isOneLine_literal (p : Param) : IsOneLine p.literal := by
  unfold literal
  split
  · exact isOneLine_numberLiteral _
  · exact isOneLine_quote _
  · exact isOneLine_booleanLiteral _

/-- What a parameter starts with is written on one line. -/
theorem isOneLine_initializer (p : Param) : IsOneLine p.initializer := by
  unfold initializer
  split
  · exact isOneLine_append.mpr ⟨p.isOneLine_literal, by decide⟩
  · exact p.isOneLine_literal

/-- A parameter is read on one line. -/
theorem isOneLine_read (h : IsWord p.field) : IsOneLine p.read := by
  unfold read
  split <;> exact isOneLine_append.mpr ⟨by decide, h.isOneLine⟩

/-- A parameter is given out on one line. -/
theorem isOneLine_getter (h : IsWord p.field) : IsOneLine p.getter := by
  unfold getter
  split
  · simp only [isOneLine_append, h.isOneLine, and_true]
    decide
  · simp only [isOneLine_append, h.isOneLine, ParamKind.isOneLine_variant, and_true]
    decide

/-- A parameter is stored on one line. -/
theorem isCodeLine_setter (h : IsWord p.field) : IsCodeLine p.setter := by
  have front : IsCodeLine "self." := by decide
  exact (((front.append h.isOneLine).append (by decide)).append p.kind.isOneLine_accessor).append
    (by decide)

end Param

/-! ## Outputs -/

/-- The type of the field of an output is written on one line. -/
theorem OutputField.isOneLine_type (o : OutputField) : IsOneLine o.type := by
  unfold OutputField.type
  cases o.kind <;> decide

theorem isOneLine_defaultValue (kind : DataKind) : IsOneLine (defaultValue kind) := by
  cases kind <;> decide

/-- What stands for an input that is not connected is written on one line. -/
theorem isOneLine_fallback (kind : DataKind) : IsOneLine (fallback kind) := by
  cases kind <;> decide

/-- The kinds whose values are copied as they are; values of the other kinds have to be cloned. -/
def isCopied : DataKind → Bool
  | .number | .indicator | .boolean | .signal => true
  | .string | .candle | .array | .order | .any => false

/-- What can stand for the name of a conversion: no word like `self` or like the name of a field. -/
def IsConverter (name : String) : Prop :=
  IsWord name ∧ name ≠ "self" ∧ name.toList[1]? ≠ some '_'

instance (name : String) : Decidable (IsConverter name) :=
  inferInstanceAs (Decidable (_ ∧ _ ∧ _))

/-- A conversion is the field itself, a copy of it, or a call on the field or a reference to it. It
depends on the kind of the field which of the first two it can be. -/
theorem eq_of_convert? {field expr : String} {source target : DataKind}
    (h : convert? field source target = some expr) :
    isCopied source = true ∧ expr = "self." ++ field
      ∨ isCopied source = false ∧ expr = "self." ++ field ++ ".clone()"
      ∨ ∃ name argument, IsConverter name
        ∧ (argument = "self." ++ field ∨ argument = "&" ++ ("self." ++ field))
        ∧ expr = "convert::" ++ name ++ "(" ++ argument ++ ")" := by
  have plain (h : some ("self." ++ field) = some expr) : expr = "self." ++ field :=
    (Option.some.inj h).symm
  have call {name argument : String} (word : IsConverter name)
      (arg : argument = "self." ++ field ∨ argument = "&" ++ ("self." ++ field))
      (h : some ("convert::" ++ name ++ "(" ++ argument ++ ")") = some expr) :
      ∃ name argument, IsConverter name
        ∧ (argument = "self." ++ field ∨ argument = "&" ++ ("self." ++ field))
        ∧ expr = "convert::" ++ name ++ "(" ++ argument ++ ")" :=
    ⟨name, argument, word, arg, (Option.some.inj h).symm⟩
  unfold convert? at h
  split at h
  · contradiction
  · dsimp only at h
    split at h
    case h_1 => contradiction
    case h_2 => exact .inr (.inr (call (by decide) (.inr rfl) h))
    case h_3 | h_4 | h_5 | h_6 | h_7 | h_8 => exact .inl ⟨rfl, plain h⟩
    case h_9 | h_12 | h_13 | h_14 | h_17 => exact .inr (.inr (call (by decide) (.inr rfl) h))
    case h_10 | h_11 | h_15 | h_16 => exact .inr (.inr (call (by decide) (.inl rfl) h))
    case h_18 =>
      split at h
      · rename_i same
        subst same
        refine .inr (.inl ⟨?_, (Option.some.inj h).symm⟩)
        -- the kinds that are copied have been met before
        cases source <;> simp_all [isCopied]
      · contradiction

/-- A conversion is written on one line. -/
theorem isOneLine_of_convert? {field expr : String} {source target : DataKind} (word : IsWord field)
    (h : convert? field source target = some expr) : IsOneLine expr := by
  have plain : IsOneLine ("self." ++ field) := isOneLine_append.mpr ⟨by decide, word.isOneLine⟩
  rcases eq_of_convert? h with
    ⟨-, rfl⟩ | ⟨-, rfl⟩ | ⟨name, argument, ⟨called, -⟩, given, rfl⟩
  · exact plain
  · exact isOneLine_append.mpr ⟨plain, by decide⟩
  · have inside : IsOneLine argument := by
      rcases given with rfl | rfl
      · exact plain
      · exact isOneLine_append.mpr ⟨by decide, plain⟩
    simp only [isOneLine_append, inside, called.isOneLine, and_true]
    decide

end StrategyCanvas.Code
