import Mathlib.Algebra.Order.Field.Power
import Mathlib.Data.List.TakeWhile
import Mathlib.Data.Rat.Cast.Order
import Mathlib.Tactic.Linarith
import StrategyCanvas.Decimal.Layout
import StrategyCanvas.Proofs.Decimal.Digits

/-!
# Decimals that are read

However a decimal is laid out, the digits and the power of ten that are read from its text make the
same number (`reads_scientificText`). Zeros that fill the place up to the point change both, so they
are compared as rationals.
-/

namespace StrategyCanvas.Decimal

/-! ## Digits, point and exponent -/

/-- Nothing of a row of digits stands at the start of `rest`. -/
def EndsDigits (rest : List Char) : Prop := ∀ c ∈ rest.head?, c.isDigit = false

/-- Whether a text starts with a digit and has the magnitude `v`. -/
structure Reads (cs : List Char) (v : ℚ) : Prop where
  first : ∃ c ∈ cs.head?, c.isDigit = true
  magnitude : ∃ (n : ℕ) (e : ℤ), magnitude? cs = some (n, e) ∧ (n : ℚ) * 10 ^ e = v

section

variable {whole fraction rest : List Char} {e : ℤ}

/-- A row of digits begins with one. -/
theorem exists_digit_append (h : ∀ c ∈ whole, c.isDigit = true) (ne : whole ≠ []) :
    ∃ c ∈ (whole ++ rest).head?, c.isDigit = true := by
  obtain ⟨c, cs, rfl⟩ := List.exists_cons_of_ne_nil ne
  exact ⟨c, rfl, h c List.mem_cons_self⟩

/-- A row of digits is read to its end. -/
theorem takeWhile_digits (h : ∀ c ∈ whole, c.isDigit = true) (h' : EndsDigits rest) :
    (whole ++ rest).takeWhile Char.isDigit = whole := by
  rw [takeWhile_isDigit_append h', List.takeWhile_eq_self_iff.mpr h]

/-- What stands behind a row of digits is left. -/
theorem dropWhile_digits (h : ∀ c ∈ whole, c.isDigit = true) (h' : EndsDigits rest) :
    (whole ++ rest).dropWhile Char.isDigit = rest := by
  have split := List.takeWhile_append_dropWhile (p := Char.isDigit) (l := whole ++ rest)
  rw [takeWhile_digits h h'] at split
  exact List.append_cancel_left split

/-- Digits without a point are read as a whole number, times the power of ten behind them. -/
theorem reads_whole (h : ∀ c ∈ whole, c.isDigit = true) (ne : whole ≠ []) (h' : EndsDigits rest)
    (noPoint : rest.head? ≠ some '.') (power : exponent? rest = some e) :
    Reads (whole ++ rest) (natOfDigits whole * 10 ^ e) := by
  refine ⟨exists_digit_append h ne, natOfDigits whole, e, ?_, rfl⟩
  have noFraction : splitFraction rest = ([], rest) := by
    unfold splitFraction
    split
    · exact absurd rfl noPoint
    · rfl
  simp [magnitude?, takeWhile_digits h h', dropWhile_digits h h', noFraction, ne, power]

/-- Each digit behind the point divides by ten. -/
theorem reads_point (h : ∀ c ∈ whole, c.isDigit = true) (ne : whole ≠ [])
    (h' : ∀ c ∈ fraction, c.isDigit = true) (h'' : EndsDigits rest)
    (power : exponent? rest = some e) : Reads (whole ++ '.' :: (fraction ++ rest))
      (natOfDigits (whole ++ fraction) * 10 ^ (e - fraction.length)) := by
  refine ⟨exists_digit_append h ne, _, _, ?_, rfl⟩
  have point : EndsDigits ('.' :: (fraction ++ rest)) := by
    rintro c ⟨⟩
    rfl
  simp [magnitude?, takeWhile_digits h point, dropWhile_digits h point, splitFraction,
    takeWhile_digits h' h'', dropWhile_digits h' h'', ne, power]

/-- A point between the digits of a row. -/
theorem reads_split {width : ℕ} (h : ∀ c ∈ whole, c.isDigit = true) (some : whole.take width ≠ [])
    (h' : EndsDigits rest) (power : exponent? rest = .some e) :
    Reads (whole.take width ++ '.' :: (whole.drop width ++ rest))
      (natOfDigits whole * 10 ^ (e - (whole.length - width : ℕ))) := by
  have text := reads_point (fun c mem => h c (List.mem_of_mem_take mem)) some
    (fun c mem => h c (List.mem_of_mem_drop (i := width) mem)) h' power
  rwa [List.take_append_drop, List.length_drop] at text

theorem endsDigits_nil : EndsDigits [] := by
  rintro c ⟨⟩

/-- Without an exponent the digits alone make the number. -/
theorem reads_digits (h : ∀ c ∈ whole, c.isDigit = true) (ne : whole ≠ []) :
    Reads whole (natOfDigits whole) := by
  simpa using reads_whole (e := 0) h ne endsDigits_nil (by simp) rfl

/-- Without an exponent, the digits behind the point alone divide. -/
theorem reads_fraction (h : ∀ c ∈ whole, c.isDigit = true) (ne : whole ≠ [])
    (h' : ∀ c ∈ fraction, c.isDigit = true) : Reads (whole ++ '.' :: fraction)
      (natOfDigits (whole ++ fraction) * 10 ^ (-fraction.length : ℤ)) := by
  simpa using reads_point (e := 0) h ne h' endsDigits_nil rfl

end

theorem isDigit_of_mem_zeros (width : ℕ) : ∀ c ∈ List.replicate width '0', c.isDigit = true := by
  intro c mem
  rw [List.eq_of_mem_replicate mem]
  rfl

/-! ## Signs and words -/

/-- A number that begins with a digit has no sign. -/
theorem splitSign_of_digit {c : Char} {cs : List Char} (h : c.isDigit = true) :
    splitSign (c :: cs) = (false, c :: cs) := by
  unfold splitSign
  split
  · rename_i minus
    obtain ⟨rfl, -⟩ := List.cons.inj minus
    contradiction
  · rename_i plus
    obtain ⟨rfl, -⟩ := List.cons.inj plus
    contradiction
  · rfl

theorem toLower_of_isDigit {c : Char} (h : c.isDigit = true) : c.toLower = c := by
  simp only [Char.isDigit, Bool.and_eq_true, decide_eq_true_eq] at h
  refine dif_neg fun upper => ?_
  exact absurd (UInt32.le_trans upper.1 h.2) (by decide)

/-- A text that starts with a digit is read as a decimal. -/
theorem read?_of_reads {cs : List Char} {v : ℚ} (h : Reads cs v) (negative : Bool) :
    ∃ (n : ℕ) (e : ℤ), (n : ℚ) * 10 ^ e = v
      ∧ read? (String.ofList ((if negative then ['-'] else []) ++ cs))
        = some (ofDecimal negative n e) := by
  obtain ⟨⟨c, first, digit⟩, n, e, magnitude, value⟩ := h
  refine ⟨n, e, value, ?_⟩
  obtain ⟨cs, rfl⟩ := List.head?_eq_some_iff.mp first
  have sign : splitSign ((if negative then ['-'] else []) ++ c :: cs) = (negative, c :: cs) := by
    cases negative
    · exact splitSign_of_digit digit
    · rfl
  have noWord {text : String} (letter : ∃ d ∈ text.toList.head?, d.isDigit = false) :
      String.ofList ((c :: cs).map Char.toLower) ≠ text := by
    rintro rfl
    obtain ⟨d, first, letter⟩ := letter
    rw [String.toList_ofList] at first
    obtain rfl : c.toLower = d := Option.some.inj first
    rw [toLower_of_isDigit digit, digit] at letter
    cases letter
  unfold read?
  rw [String.toList_ofList, sign]
  dsimp only
  rw [if_neg (not_or.mpr ⟨noWord ⟨'i', rfl, rfl⟩, noWord ⟨'i', rfl, rfl⟩⟩),
    if_neg (noWord ⟨'n', rfl, rfl⟩), magnitude]
  rfl

/-! ## Layouts -/

namespace Layout

/-- An exponent is read back from its text, with or without a sign. -/
theorem exponent?_exponentText (l : Layout) (e : ℤ) :
    exponent? ('e' :: l.exponentText e) = some e := by
  have digits (n : ℕ) : (Nat.toDigits 10 n).all Char.isDigit = true :=
    List.all_eq_true.mpr fun _ => isDigit_of_mem_toDigits
  have unsigned (n : ℕ) : splitSign (Nat.toDigits 10 n) = (false, Nat.toDigits 10 n) := by
    obtain ⟨c, cs, shape⟩ := List.exists_cons_of_ne_nil (Nat.toDigits_ne_nil (n := n) (b := 10))
    rw [shape]
    exact splitSign_of_digit (isDigit_of_mem_toDigits (n := n) (shape ▸ List.mem_cons_self))
  unfold exponentText
  split
  · simp [exponent?, splitSign, digits, natOfDigits_toDigits, Nat.toDigits_ne_nil]
    omega
  · cases l.plusSign
    · simp [exponent?, unsigned, digits, natOfDigits_toDigits, Nat.toDigits_ne_nil]
      omega
    · simp [exponent?, splitSign, digits, natOfDigits_toDigits, Nat.toDigits_ne_nil]
      omega

section

variable {digits : List Char}

/-- Digits that are written out by their places are read with the same value. -/
theorem reads_positionalText (l : Layout) (h : ∀ c ∈ digits, c.isDigit = true) (ne : digits ≠ [])
    (e : ℤ) :
    Reads (l.positionalText digits (e + digits.length)) (natOfDigits digits * 10 ^ e) := by
  have long : 0 < digits.length := List.length_pos_of_ne_nil ne
  unfold positionalText
  split
  · obtain ⟨width, gap⟩ := Int.eq_ofNat_of_zero_le (a := -(e + digits.length)) (by omega)
    have text := reads_fraction (isDigit_of_mem_zeros 1) (by simp)
      (List.forall_mem_append.mpr ⟨isDigit_of_mem_zeros width, h⟩)
    have same := natOfDigits_zeros_append (1 + width) digits
    have exponent : -((List.replicate width '0' ++ digits).length : ℤ) = e := by simp; omega
    rw [List.replicate_add, List.append_assoc] at same
    rw [same, exponent] at text
    rw [gap]
    exact text
  split
  · obtain ⟨width, rfl⟩ := Int.eq_ofNat_of_zero_le (a := e) (by omega)
    have gap : ((width : ℤ) + digits.length).toNat - digits.length = width := by omega
    have padded := List.forall_mem_append.mpr ⟨h, isDigit_of_mem_zeros width⟩
    have some : digits ++ List.replicate width '0' ≠ [] := by simp [ne]
    rw [gap]
    cases l.pointZero
    · have text := reads_digits padded some
      rw [natOfDigits_append_zeros] at text
      simpa using text
    · have text := reads_fraction padded some (isDigit_of_mem_zeros 1)
      rw [natOfDigits_append_zeros, natOfDigits_append_zeros] at text
      simpa using text
  · generalize place : (e + digits.length).toNat = width
    have some : digits.take width ≠ [] := by simp [ne]; omega
    have text := reads_split h some endsDigits_nil rfl
    have exponent : 0 - ((digits.length - width : ℕ) : ℤ) = e := by omega
    rwa [exponent, List.append_nil] at text

/-- Digits that are written with an exponent are read with the same value. -/
theorem reads_exponentialText (l : Layout) (h : ∀ c ∈ digits, c.isDigit = true) (ne : digits ≠ [])
    (e : ℤ) : Reads (l.exponentialText digits (e + (digits.length - 1 : ℕ)))
      (natOfDigits digits * 10 ^ e) := by
  generalize lead : e + ((digits.length - 1 : ℕ) : ℤ) = first
  have ends : EndsDigits ('e' :: l.exponentText first) := by
    rintro c ⟨⟩
    rfl
  have power := l.exponent?_exponentText first
  have long : 0 < digits.length := List.length_pos_of_ne_nil ne
  unfold exponentialText
  split
  · rename_i short
    obtain rfl : e = first := by omega
    rw [List.take_of_length_le short, List.append_nil]
    exact reads_whole h ne ends (by simp) power
  · have some : digits.take 1 ≠ [] := by simp [ne]
    have text := reads_split h some ends power
    have exponent : first - ((digits.length - 1 : ℕ) : ℤ) = e := by omega
    rw [exponent] at text
    simpa using text

end

/-- Zero is read, with or without a point. -/
theorem reads_zero (l : Layout) :
    Reads ('0' :: if l.pointZero then ['.', '0'] else []) 0 := by
  refine ⟨⟨'0', rfl, rfl⟩, 0, if l.pointZero then -1 else 0, ?_, by simp⟩
  cases l.pointZero <;> rfl

/-- However a decimal is set out, it is read. -/
theorem reads_scientificText (l : Layout) (d : Scientific) :
    Reads (l.scientificText d) (d.digits * 10 ^ d.exponent) := by
  have digits := fun c => isDigit_of_mem_toDigits (n := d.digits) (c := c)
  have ne := Nat.toDigits_ne_nil (n := d.digits) (b := 10)
  have long : 0 < (Nat.toDigits 10 d.digits).length := Nat.length_toDigits_pos
  have positional := l.reads_positionalText digits ne d.exponent
  have exponential := l.reads_exponentialText digits ne d.exponent
  rw [natOfDigits_toDigits] at positional exponential
  unfold scientificText
  dsimp only
  split
  · have whole : d.exponent + ((Nat.toDigits 10 d.digits).length - 1 : ℕ) + 1
        = d.exponent + (Nat.toDigits 10 d.digits).length := by omega
    rwa [whole]
  · exact exponential

end Layout

end StrategyCanvas.Decimal
