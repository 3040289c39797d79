import StrategyCanvas.Json.Token
import StrategyCanvas.Text.Quoted

/-!
# Reading quoted text

A text in double quotes is read back from code as the text that was quoted, whatever stands behind
it (`readLiteral_quote`). The reader takes one character after the other and keeps what it has seen
of an escape.
-/

namespace StrategyCanvas.Text

/-- What a reader of a literal has seen of an escape. -/
inductive Escape
  | none
  | backslash
  /-- A backslash and the letter of code points. -/
  | letter
  /-- Digits that give a number. -/
  | digits (n : Nat)
  deriving DecidableEq, Repr

/-- The character that one letter behind a backslash stands for. -/
def namedEscape? : Char → Option Char
  | '0' => some '\x00'
  | 't' => some '\t'
  | 'r' => some '\r'
  | 'n' => some '\n'
  | '"' => some '"'
  | '\\' => some '\\'
  | _ => none

/-- The characters of a literal up to the quote that ends it, and what stands behind this. -/
def literalChars : Escape → List Char → Option (List Char × List Char)
  | _, [] => none
  | .none, '"' :: cs => some ([], cs)
  | .none, '\\' :: cs => literalChars .backslash cs
  | .none, c :: cs => (literalChars .none cs).map fun (text, rest) => (c :: text, rest)
  | .backslash, 'u' :: cs => literalChars .letter cs
  | .backslash, c :: cs =>
    (namedEscape? c).bind fun d => (literalChars .none cs).map fun (text, rest) => (d :: text, rest)
  | .letter, '\x7b' :: cs => literalChars (.digits 0) cs
  | .letter, _ :: _ => none
  | .digits n, '\x7d' :: cs =>
    (literalChars .none cs).map fun (text, rest) => (Char.ofNat n :: text, rest)
  | .digits n, c :: cs => (Json.hexValue? c).bind fun d => literalChars (.digits (n * 16 + d)) cs

/-- The text of the literal that begins some characters, and what stands behind it. -/
def readLiteral : List Char → Option (String × List Char)
  | '"' :: cs => (literalChars .none cs).map fun (text, rest) => (String.ofList text, rest)
  | _ => none

example : readLiteral "\"a\\u\x7b7f\x7d\" b".toList = some ("a\x7f", " b".toList) := by
  decide +kernel

/-- The digits of a number give the number. -/
theorem literalChars_toDigits (n : Nat) (rest : List Char) :
    literalChars (.digits 0) (Nat.toDigits 16 n ++ rest) = literalChars (.digits n) rest := by
  have digit : ∀ d < 16, d.digitChar ≠ '\x7d' ∧ Json.hexValue? d.digitChar = some d := by decide
  have step {d : Nat} (small : d < 16) (m : Nat) (rest : List Char) :
      literalChars (.digits m) (d.digitChar :: rest)
        = literalChars (.digits (m * 16 + d)) rest := by
    obtain ⟨other, value⟩ := digit d small
    rw [literalChars, value]
    · rfl
    · exact other
  induction n using Nat.strongRecOn generalizing rest with
  | ind n ih =>
    rw [Nat.toDigits_eq_if (by decide)]
    split
    · rename_i small
      rw [List.singleton_append, step small, Nat.zero_mul, Nat.zero_add]
    · rename_i large
      rw [List.append_assoc, List.singleton_append, ih (n / 16) (by omega),
        step (Nat.mod_lt n (by decide)), Nat.div_add_mod']

/-- Whatever stands for a character is read as that character. -/
theorem literalChars_quoteChar (c : Char) (rest : List Char) :
    literalChars .none (quoteChar c ++ rest)
      = (literalChars .none rest).map fun (text, rest) => (c :: text, rest) := by
  unfold quoteChar
  iterate 6
    split
    · rename_i same
      subst same
      rfl
  rename_i quote backslash
  split
  · have code : codePointEscape c ++ rest
        = '\\' :: 'u' :: '\x7b' :: (Nat.toDigits 16 c.toNat ++ '\x7d' :: rest) := by
      simp [codePointEscape]
    rw [code, literalChars, literalChars, literalChars, literalChars_toDigits, literalChars,
      Char.ofNat_toNat]
  · rw [List.singleton_append, literalChars]
    · exact quote
    · exact backslash

/-- A quoted text is read as the text that was quoted. -/
theorem readLiteral_quote (s : String) (rest : List Char) :
    readLiteral ((quote s).toList ++ rest) = some (s, rest) := by
  have inside (cs : List Char) : literalChars .none (cs.flatMap quoteChar ++ '"' :: rest)
      = some (cs, rest) := by
    induction cs with
    | nil => rfl
    | cons c cs ih =>
      rw [List.flatMap_cons, List.append_assoc, literalChars_quoteChar, ih]
      rfl
  rw [quote, String.toList_ofList, List.cons_append, List.append_assoc, List.singleton_append,
    readLiteral, inside]
  simp

end StrategyCanvas.Text
