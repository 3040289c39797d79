import Mathlib.Data.List.Basic
import StrategyCanvas.Decimal.Reader

/-!
# Rows of digits

A row of digits is read as the number that it was made from, with or without zeros before it. The
digits of a number other than zero do not start with a zero.
-/

namespace StrategyCanvas.Decimal

/-- Digits are read as the library reads them. -/
theorem natOfDigits_eq_ofDigitChars (cs : List Char) : natOfDigits cs = Nat.ofDigitChars 10 cs 0 :=
  rfl

/-- The digits of a number are read as that number. -/
theorem natOfDigits_toDigits (n : Nat) : natOfDigits (Nat.toDigits 10 n) = n := by
  rw [natOfDigits_eq_ofDigitChars, Nat.ofDigitChars_ten_toDigits]

/-- Zeros in front do not count. -/
theorem natOfDigits_zeros_append (width : Nat) (cs : List Char) :
    natOfDigits (List.replicate width '0' ++ cs) = natOfDigits cs := by
  rw [natOfDigits_eq_ofDigitChars, Nat.ofDigitChars_append, Nat.ofDigitChars_replicate_zero,
    Nat.mul_zero, natOfDigits_eq_ofDigitChars]

/-- Zeros behind multiply by ten. -/
theorem natOfDigits_append_zeros (cs : List Char) (width : Nat) :
    natOfDigits (cs ++ List.replicate width '0') = natOfDigits cs * Nat.pow 10 width := by
  rw [natOfDigits_eq_ofDigitChars, natOfDigits_eq_ofDigitChars, Nat.ofDigitChars_append,
    Nat.ofDigitChars_replicate_zero, Nat.mul_comm, Nat.pow_eq]

theorem isDigit_of_mem_toDigits {n : Nat} {c : Char} (h : c ∈ Nat.toDigits 10 n) :
    c.isDigit = true :=
  Nat.isDigit_of_mem_toDigits (by decide) (by decide) h

/-- A number other than zero does not begin with a zero. -/
theorem head?_toDigits_ne_zero {n : Nat} (h : n ≠ 0) : (Nat.toDigits 10 n).head? ≠ some '0' := by
  induction n using Nat.strongRecOn with
  | ind n ih =>
    rw [Nat.toDigits_eq_if (by decide)]
    split
    · rename_i small
      have digits : ∀ k < 10, k ≠ 0 → k.digitChar ≠ '0' := by decide
      simpa using digits n small h
    · rename_i large
      rw [List.head?_append_of_ne_nil _ Nat.toDigits_ne_nil]
      exact ih (n / 10) (by omega) (by omega)

/-- Something else behind a text adds no digits to those at its start. -/
theorem takeWhile_isDigit_append {rest : List Char} (h : ∀ c ∈ rest.head?, c.isDigit = false)
    (cs : List Char) : (cs ++ rest).takeWhile Char.isDigit = cs.takeWhile Char.isDigit := by
  induction cs with
  | nil =>
    cases rest with
    | nil => rfl
    | cons c rest => simp [h c rfl]
  | cons c cs ih => rw [List.cons_append, List.takeWhile_cons, List.takeWhile_cons, ih]

end StrategyCanvas.Decimal
