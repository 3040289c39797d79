import Mathlib.Data.List.TakeWhile
import StrategyCanvas.Json.Decoder
import StrategyCanvas.Proofs.Decimal.Digits
import StrategyCanvas.Proofs.Decimal.Layout
import StrategyCanvas.Proofs.Json.Scanning

/-!
# Numbers in a text

A number is scanned as far as its characters go. What is known of its text alone holds of the text
with anything behind it that cannot belong to a number, such as a comma or the end of a line.
-/

namespace StrategyCanvas.Json

/-- Nothing of a number stands at the start of `rest`. -/
def EndsNumber (rest : List Char) : Prop :=
  ∀ c ∈ rest.head?, c.isDigit = false ∧ c ≠ '.' ∧ c ≠ 'e' ∧ c ≠ 'E'

section

variable {negative : Bool} {whole fraction cs rest : List Char} {v : Json}

/-! ## With something behind it -/

/-- The digits of a number end where the number ends. -/
theorem EndsNumber.takeWhile_isDigit_append (h : EndsNumber rest) (cs : List Char) :
    (cs ++ rest).takeWhile Char.isDigit = cs.takeWhile Char.isDigit :=
  Decimal.takeWhile_isDigit_append (fun c mem => (h c mem).1) cs

/-- What is left behind the leading digits, in front of more text. -/
theorem drop_takeWhile_append (cs rest : List Char) :
    (cs ++ rest).drop (cs.takeWhile Char.isDigit).length
      = cs.drop (cs.takeWhile Char.isDigit).length ++ rest :=
  List.drop_append_of_le_length (List.takeWhile_prefix _).length_le

/-- The sign of a text with more behind it is its own. -/
theorem splitSign_append (h : cs ≠ []) :
    Decimal.splitSign (cs ++ rest)
      = ((Decimal.splitSign cs).1, (Decimal.splitSign cs).2 ++ rest) := by
  obtain ⟨c, cs, rfl⟩ := List.exists_cons_of_ne_nil h
  by_cases minus : c = '-'
  · subst minus
    rfl
  · by_cases plus : c = '+'
    · subst plus
      rfl
    · simp [Decimal.splitSign, minus, plus]

/-- The exponent part behind its letter. -/
theorem scanExponent_cons (negative : Bool) (whole fraction : List Char) {c : Char}
    (h : c = 'e' ∨ c = 'E') (cs : List Char) :
    scanExponent negative whole fraction (c :: cs) =
      let power := (Decimal.splitSign cs).2.takeWhile Char.isDigit
      if power = [] then missingDigit (Decimal.splitSign cs).2
      else
        let n : Int := Decimal.natOfDigits power
        (numberToken ⟨negative, whole, fraction, if (Decimal.splitSign cs).1 then -n else n⟩,
          (Decimal.splitSign cs).2.drop power.length) := by
  rw [scanExponent, if_pos h]

/-- Where a digit is missing, no number is read. -/
theorem missingDigit_ne_scalar {more : List Char} : missingDigit cs ≠ (.scalar v, more) := by
  simp [missingDigit, brokenNumber]

/-- An exponent that is read alone is read in front of whatever ends a number. -/
theorem scanExponent_append (h : EndsNumber rest)
    (alone : scanExponent negative whole fraction cs = (.scalar v, [])) :
    scanExponent negative whole fraction (cs ++ rest) = (.scalar v, rest) := by
  cases cs with
  | nil =>
    cases rest with
    | nil => exact alone
    | cons c rest =>
      simp only [scanExponent, List.nil_append, Prod.mk.injEq, and_true] at alone ⊢
      rw [if_neg (by simp [h c rfl]), alone]
  | cons c cs =>
    have letter : c = 'e' ∨ c = 'E' := by
      by_contra other
      simp [scanExponent, other] at alone
    have more : cs ≠ [] := by
      rintro rfl
      rw [scanExponent_cons _ _ _ letter] at alone
      exact missingDigit_ne_scalar alone
    rw [scanExponent_cons _ _ _ letter] at alone
    rw [List.cons_append, scanExponent_cons _ _ _ letter, splitSign_append more]
    dsimp only at alone ⊢
    rw [h.takeWhile_isDigit_append, drop_takeWhile_append]
    split at alone
    · exact absurd alone missingDigit_ne_scalar
    · rename_i digits
      rw [if_neg digits]
      simp_all

/-- A number that is read alone is read in front of whatever ends a number. -/
theorem scanNumber_append (h : EndsNumber rest)
    (alone : scanNumber negative cs = (.scalar v, [])) :
    scanNumber negative (cs ++ rest) = (.scalar v, rest) := by
  unfold scanNumber at alone ⊢
  dsimp only at alone ⊢
  rw [h.takeWhile_isDigit_append, drop_takeWhile_append]
  generalize cs.drop _ = behind at alone ⊢
  split at alone
  · exact absurd alone missingDigit_ne_scalar
  rename_i digits
  rw [if_neg digits]
  split at alone
  · cases alone
  rename_i leading
  rw [if_neg leading]
  cases behind with
  | nil =>
    cases rest with
    | nil => exact alone
    | cons c rest => simpa [h c rfl] using alone
  | cons c behind =>
    by_cases point : c = '.'
    · subst point
      simp only [List.cons_append, h.takeWhile_isDigit_append, drop_takeWhile_append] at alone ⊢
      split at alone
      · exact absurd alone missingDigit_ne_scalar
      · rename_i fraction
        rw [if_neg fraction]
        exact scanExponent_append h alone
    · by_cases letter : c = 'e' ∨ c = 'E'
      · simp only [List.cons_append, if_pos letter] at alone ⊢
        exact scanExponent_append h alone
      · simp [letter] at alone

/-! ## What is left of a text, and whole numbers -/

/-- Taking the sign off leaves the rest of the text. -/
theorem splitSign_suffix (cs : List Char) : (Decimal.splitSign cs).2 <:+ cs := by
  unfold Decimal.splitSign
  split
  · exact List.suffix_cons _ _
  · exact List.suffix_cons _ _
  · exact List.suffix_refl _

/-- What an exponent leaves is the rest of the text. -/
theorem scanExponent_suffix (negative : Bool) (whole fraction cs : List Char) :
    (scanExponent negative whole fraction cs).2 <:+ cs := by
  unfold scanExponent
  split
  · split
    · dsimp only
      split
      · exact List.nil_suffix
      · exact (List.drop_suffix _ _).trans ((splitSign_suffix _).trans (List.suffix_cons _ _))
    · exact List.suffix_refl _
  · exact List.suffix_refl _

/-- What a number leaves is the rest of the text. -/
theorem scanNumber_suffix (negative : Bool) (cs : List Char) :
    (scanNumber negative cs).2 <:+ cs := by
  have behindWhole := List.drop_suffix (cs.takeWhile Char.isDigit).length cs
  unfold scanNumber
  dsimp only
  split
  · exact List.nil_suffix
  split
  · exact List.nil_suffix
  split
  · rename_i behind rest
    have behindPoint : behind <:+ cs := (List.suffix_cons '.' behind).trans (rest ▸ behindWhole)
    split
    · exact List.nil_suffix
    · exact (scanExponent_suffix _ _ _ _).trans ((List.drop_suffix _ _).trans behindPoint)
  · split
    · exact (scanExponent_suffix _ _ _ _).trans behindWhole
    · exact behindWhole
  · exact List.nil_suffix

/-- A number with an exponent is not read as a whole number. -/
theorem scanExponent_ne_int {n : Int} {more : List Char} :
    scanExponent negative whole fraction cs ≠ (.scalar (.int n), more) := by
  have token (m : Decimal.Numeral) : numberToken m ≠ .scalar (.int n) := by
    unfold numberToken
    split <;> simp
  unfold scanExponent
  split
  · split
    · dsimp only
      split
      · exact missingDigit_ne_scalar
      · simp [token]
    · simp [token]
  · simp [token]

/-- Nothing but a row of digits is taken for a whole number. -/
theorem isDigit_of_scanNumber_int {n : Int} (h : scanNumber negative cs = (.scalar (.int n), [])) :
    ∀ c ∈ cs, c.isDigit = true := by
  unfold scanNumber at h
  dsimp only at h
  split at h
  · exact absurd h missingDigit_ne_scalar
  split at h
  · cases h
  split at h
  · split at h
    · exact absurd h missingDigit_ne_scalar
    · exact absurd h scanExponent_ne_int
  · split at h
    · exact absurd h scanExponent_ne_int
    · rename_i more _
      simp [more] at h
  · rename_i nothing
    have all : cs.takeWhile Char.isDigit = cs :=
      (List.takeWhile_prefix _).eq_of_length_le (List.drop_eq_nil_iff.mp nothing)
    exact List.takeWhile_eq_self_iff.mp all

/-! ## The first token -/

/-- What a numeral starts with decides how it is scanned. -/
theorem first_of_isNumeralChar {c : Char} (h : Decimal.isNumeralChar c = true) (fuel : Nat)
    (cs : List Char) : Token.first fuel c cs =
      if c = '-' then scanNumber true cs
      else if c.isDigit then scanNumber false (c :: cs)
      else (.broken .nothing .malformed (some .malformed), []) := by
  by_cases minus : c = '-'
  · subst minus
    rfl
  · rw [if_neg minus]
    unfold Token.first
    split
    all_goals first | (exfalso; revert h; decide) | rfl | contradiction

/-- The first token leaves the rest of the text. -/
theorem first_suffix {c : Char} (h : Decimal.isNumeralChar c = true) (fuel : Nat)
    (cs : List Char) : (Token.first fuel c cs).2 <:+ c :: cs := by
  rw [first_of_isNumeralChar h]
  split_ifs
  · exact (scanNumber_suffix _ _).trans (List.suffix_cons _ _)
  · exact scanNumber_suffix _ _
  · exact List.nil_suffix

/-- A numeral that is read alone is read in front of whatever ends a number. -/
theorem first_append {c : Char} (numeral : Decimal.isNumeralChar c = true) (h : EndsNumber rest)
    {fuel : Nat} (alone : Token.first fuel c cs = (.scalar v, [])) (fuel' : Nat) :
    Token.first fuel' c (cs ++ rest) = (.scalar v, rest) := by
  rw [first_of_isNumeralChar numeral] at alone ⊢
  split at alone
  · rename_i minus
    rw [if_pos minus]
    exact scanNumber_append h alone
  · rename_i plus
    rw [if_neg plus]
    split at alone
    · rename_i digit
      rw [if_pos digit]
      exact scanNumber_append h alone
    · cases alone

/-! ## Numbers that read back -/

/-- No character of a numeral is skipped as a space. -/
theorem isSpace_of_isNumeralChar {c : Char} (h : Decimal.isNumeralChar c = true) :
    isSpace c = false := by
  by_contra space
  simp only [isSpace, Bool.not_eq_false, Bool.or_eq_true, decide_eq_true_eq] at space
  obtain ((rfl | rfl) | rfl) | rfl := space
  all_goals revert h; decide

/-- The text of a number by itself is read as that number. -/
def ReadsBack (x : Float) : Prop := decodeText .number (Json.float x).pretty = .ok x

instance (x : Float) : Decidable (ReadsBack x) :=
  match read : decodeText .number (Json.float x).pretty with
  | .ok y =>
    if same : y = x then isTrue (by rw [ReadsBack, read, same])
    else isFalse fun back => same (Except.ok.inj (read.symm.trans back))
  | .error _ => isFalse fun back => by cases read.symm.trans back

example : ReadsBack 0.1 ∧ ¬ReadsBack 1.0714829862921517e19 := by decide +kernel

/-- A text that is decoded has been read to its end. -/
theorem of_decodeText {α : Type} {decode : Decoder α} {text : String} {a : α}
    (h : decodeText decode text = .ok a) :
    decode .wholeText (Outline.ofText text).1 = .ok a ∧ (Outline.ofText text).2 = none := by
  unfold decodeText at h
  generalize Outline.ofText text = outline at h ⊢
  obtain ⟨v, behind⟩ := outline
  dsimp only at h ⊢
  cases decoded : decode .wholeText v with
  | error problem =>
    rw [decoded] at h
    cases h
  | ok b =>
    rw [decoded] at h
    cases behind with
    | none => exact ⟨h, rfl⟩
    | some fault => cases h

/-- Only a scalar token is the start of a number. -/
theorem scalar_of_number {o : Origin} {fuel : Nat} {t : Token} {ts : List Token} {x : Float}
    (h : Decoder.number o (Outline.readValue (fuel + 1) (t :: ts)).1 = .ok x) :
    (∃ n, t = .scalar (.int n)) ∨ t = .scalar (.float x) := by
  cases t with
  | scalar v =>
    cases v with
    | int n => exact Or.inl ⟨n, rfl⟩
    | float y =>
      cases h
      exact Or.inr rfl
    | _ => cases h
  | listOpen =>
    unfold Outline.readValue at h
    dsimp only at h
    split at h <;> cases h
  | objectOpen =>
    unfold Outline.readValue at h
    dsimp only at h
    split at h <;> cases h
  | _ => cases h

/-- A text of one scalar has an outline of that scalar, and anything behind it is an error. -/
theorem ofText_of_tokens {text : String} {v : Json} {ts : List Token}
    (h : tokens text.toList = .scalar v :: ts) :
    Outline.ofText text = (.ofValue v, if ts.isEmpty then none else some .malformed) := by
  rw [Outline.ofText, h, Outline.readValue]

/-- A text that is read as a number is one scalar token, with nothing behind it. -/
theorem first_of_number {text : String} {c : Char} {x : Float}
    (h : decodeText .number text = .ok x) (h' : text.toList = c :: cs)
    (numeral : ∀ d ∈ c :: cs, Decimal.isNumeralChar d = true) :
    (∃ n, ∀ fuel, Token.first fuel c cs = (.scalar (.int n), []))
      ∨ ∀ fuel, Token.first fuel c cs = (.scalar (.float x), []) := by
  have first (fuel : Nat) := first_of_isNumeralChar (numeral c List.mem_cons_self) fuel cs
  have suffix := first_suffix (numeral c List.mem_cons_self) 0 cs
  have split : tokens text.toList
      = (Token.first 0 c cs).1 :: Token.scan (cs.length + 1) (Token.first 0 c cs).2 := by
    rw [h', tokens, List.length_cons, Token.scan,
      if_neg (by simp [isSpace_of_isNumeralChar (numeral c List.mem_cons_self)]), first, first]
  generalize scanned : Token.first 0 c cs = found at split suffix
  obtain ⟨t, rest⟩ := found
  obtain ⟨read, behind⟩ := of_decodeText h
  have scalar : (∃ n, t = .scalar (.int n)) ∨ t = .scalar (.float x) := by
    rw [Outline.ofText, split] at read
    exact scalar_of_number read
  -- what is left would be part of a numeral too, so it would make a token of its own
  have nothing : rest = [] := by
    have empty : Token.scan (cs.length + 1) rest = [] := by
      by_contra more
      obtain ⟨n, rfl⟩ | rfl := scalar
      all_goals
        rw [ofText_of_tokens split] at behind
        simp [more] at behind
    cases rest with
    | nil => rfl
    | cons d rest =>
      have solid := isSpace_of_isNumeralChar (numeral d (suffix.mem List.mem_cons_self))
      rw [Token.scan, if_neg (by simp [solid])] at empty
      cases empty
  simp only [first] at scanned ⊢
  obtain ⟨n, rfl⟩ | rfl := scalar
  · exact Or.inl ⟨n, fun _ => by rw [scanned, nothing]⟩
  · exact Or.inr fun _ => by rw [scanned, nothing]

/-- Numbers that are not finite are written as `null` and do not read back. -/
theorem exists_finite_of_readsBack {x : Float} (h : ReadsBack x) :
    ∃ b, Decimal.Real64.ofFloat x = .finite b := by
  have noNull : decodeText .number (String.ofList "null".toList) ≠ .ok x := by
    intro read
    have nothing : (Outline.ofText (String.ofList "null".toList)).1 = .null := rfl
    have := (of_decodeText read).1
    rw [nothing] at this
    cases this
  rw [ReadsBack, pretty, prettyChars] at h
  cases kind : Decimal.Real64.ofFloat x with
  | finite b => exact ⟨b, rfl⟩
  | _ =>
    rw [floatText, kind] at h
    exact absurd h noNull

/-- The text of a number that reads back is scanned as that number, and not as a whole one. -/
theorem floatText_of_readsBack {x : Float} (h : ReadsBack x) :
    ∃ c cs, floatText x = c :: cs ∧ Decimal.isNumeralChar c = true
      ∧ ∀ fuel, Token.first fuel c cs = (.scalar (.float x), []) := by
  obtain ⟨b, finite⟩ := exists_finite_of_readsBack h
  have text : floatText x = Decimal.Layout.document.finiteText b := by rw [floatText, finite]
  have numeral := Decimal.Layout.isNumeralChar_of_mem_finiteText (l := .document) b
  obtain ⟨d, mem, other⟩ := Decimal.Layout.exists_mem_finiteText_not_isDigit (l := .document) rfl b
  rw [← text] at numeral mem
  obtain ⟨c, cs, shape⟩ := List.exists_cons_of_ne_nil (List.ne_nil_of_mem mem)
  rw [ReadsBack, pretty, prettyChars, shape] at h
  rw [shape] at numeral mem
  refine ⟨c, cs, shape, numeral c (by simp), ?_⟩
  refine (first_of_number h (String.toList_ofList ..) numeral).resolve_left fun ⟨n, whole⟩ => ?_
  -- a whole number is a row of digits, but there is a point or an exponent in the text
  have digit : d.isDigit = true := by
    have scanned := whole 0
    rw [first_of_isNumeralChar (numeral c (by simp))] at scanned
    split_ifs at scanned with minus
    · refine isDigit_of_scanNumber_int scanned d ((List.mem_cons.mp mem).resolve_left ?_)
      rintro rfl
      obtain rfl | rfl := other <;> exact absurd minus (by decide)
    · exact isDigit_of_scanNumber_int scanned d mem
    · cases scanned
  obtain rfl | rfl := other <;> exact absurd digit (by decide)

/-- A number that reads back is scanned from its text, in front of whatever ends a number. -/
theorem scans_floatText {x : Float} (h : ReadsBack x) (h' : EndsNumber rest) :
    Scans (floatText x) [.scalar (.float x)] rest := by
  obtain ⟨c, cs, text, numeral, scanned⟩ := floatText_of_readsBack h
  rw [text]
  exact scans_of_first (isSpace_of_isNumeralChar numeral) fun fuel _ =>
    first_append numeral h' (scanned fuel) fuel

/-! ## Whole numbers -/

/-- The digits of a whole number within 64 bits are read as that number. -/
theorem scanNumber_toDigits {m : Nat} (h : m < Nat.pow 2 64) :
    scanNumber false (Nat.toDigits 10 m) = (.scalar (.int m), []) := by
  have digits : (Nat.toDigits 10 m).takeWhile Char.isDigit = Nat.toDigits 10 m :=
    List.takeWhile_eq_self_iff.2 fun _ => Decimal.isDigit_of_mem_toDigits
  have leading :
      ¬((Nat.toDigits 10 m).head? = some '0' ∧ 1 < (Nat.toDigits 10 m).length) := by
    rintro ⟨zero, long⟩
    by_cases nothing : m = 0
    · rw [nothing] at long
      exact absurd long (by decide)
    · exact Decimal.head?_toDigits_ne_zero nothing zero
  have whole : wholeNumber? false (Nat.toDigits 10 m) = some (m : Int) := by
    simp only [wholeNumber?, Decimal.natOfDigits_toDigits]
    rw [if_neg (by simp), if_pos h]
  unfold scanNumber
  dsimp only
  rw [digits, if_neg Nat.toDigits_ne_nil, if_neg leading, List.drop_length]
  dsimp only
  rw [integerToken, whole]

/-- A whole number within 64 bits is scanned from its text. -/
theorem scans_intText {m : Nat} (h : m < Nat.pow 2 64) (h' : EndsNumber rest) :
    Scans (intText m) [.scalar (.int m)] rest := by
  have text : intText m = Nat.toDigits 10 m := by
    rw [intText, if_neg (by omega), Int.natAbs_natCast]
  obtain ⟨c, cs, first⟩ := List.exists_cons_of_ne_nil (Nat.toDigits_ne_nil (n := m) (b := 10))
  have digit : c.isDigit = true :=
    Decimal.isDigit_of_mem_toDigits (n := m) (first ▸ List.mem_cons_self)
  have numeral : Decimal.isNumeralChar c = true := by simp [Decimal.isNumeralChar, digit]
  have minus : c ≠ '-' := by
    rintro rfl
    exact absurd digit (by decide)
  have scanned (fuel : Nat) : Token.first fuel c cs = (.scalar (.int m), []) := by
    rw [first_of_isNumeralChar numeral, if_neg minus, if_pos digit, ← first, scanNumber_toDigits h]
  rw [text, first]
  exact scans_of_first (isSpace_of_isNumeralChar numeral) fun fuel _ =>
    first_append numeral h' (scanned fuel) fuel

end

end StrategyCanvas.Json
