import Mathlib.Data.List.Basic
import Mathlib.Tactic.SplitIfs
import StrategyCanvas.Decimal.Layout

/-!
# The characters of numbers

Whatever a finite number is and however it is laid out, its text has no characters but digits,
signs, the point and the `e` of an exponent (`isNumeralChar_of_mem_finiteText`).
-/

namespace StrategyCanvas.Decimal

/-- Digits, and what a decimal has besides them. -/
def isNumeralChar (c : Char) : Bool := c.isDigit || c = '-' || c = '+' || c = '.' || c = 'e'

theorem isNumeralChar_of_mem_toDigits {n : Nat} :
    ∀ c ∈ Nat.toDigits 10 n, isNumeralChar c = true := by
  intro c mem
  simp [isNumeralChar, Nat.isDigit_of_mem_toDigits (by decide) (by decide) mem]

/-- A character that stands for no digit does not occur among digits, in any base. -/
theorem not_mem_toDigits {base : Nat} (h : 1 < base) {c : Char} (other : ∀ k, Nat.digitChar k ≠ c)
    (n : Nat) : c ∉ Nat.toDigits base n := by
  induction n using Nat.strongRecOn with
  | ind n ih =>
    have digit (k : Nat) : c ≠ k.digitChar := (other k).symm
    rw [Nat.toDigits_eq_if h]
    split
    · simp [digit]
    · rename_i large
      have smaller : n / base < n := Nat.div_lt_self (by omega) h
      simp [digit, ih (n / base) smaller]

namespace Layout

variable {l : Layout} {digits : List Char}

theorem isNumeralChar_of_mem_exponentText (e : Int) :
    ∀ c ∈ l.exponentText e, isNumeralChar c = true := by
  unfold exponentText
  split
  · rw [List.forall_mem_cons]
    exact ⟨rfl, isNumeralChar_of_mem_toDigits⟩
  · rw [List.forall_mem_append]
    refine ⟨?_, isNumeralChar_of_mem_toDigits⟩
    split <;> simp [isNumeralChar]

theorem isNumeralChar_of_mem_exponentialText (h : ∀ c ∈ digits, isNumeralChar c = true) (e : Int) :
    ∀ c ∈ l.exponentialText digits e, isNumeralChar c = true := by
  unfold exponentialText
  rw [List.forall_mem_append, List.forall_mem_append, List.forall_mem_cons]
  refine ⟨⟨fun c mem => h c (List.mem_of_mem_take mem), ?_⟩, rfl,
    isNumeralChar_of_mem_exponentText e⟩
  split
  · simp
  · rw [List.forall_mem_cons]
    exact ⟨rfl, fun c mem => h c (List.mem_of_mem_drop mem)⟩

theorem isNumeralChar_of_mem_positionalText (h : ∀ c ∈ digits, isNumeralChar c = true)
    (whole : Int) : ∀ c ∈ l.positionalText digits whole, isNumeralChar c = true := by
  have zeros (n : Nat) : ∀ c ∈ List.replicate n '0', isNumeralChar c = true := by
    intro c mem
    rw [List.eq_of_mem_replicate mem]
    rfl
  unfold positionalText
  split
  · rw [List.forall_mem_cons, List.forall_mem_cons, List.forall_mem_append]
    exact ⟨rfl, rfl, zeros _, h⟩
  · split
    · rw [List.forall_mem_append, List.forall_mem_append]
      refine ⟨⟨h, zeros _⟩, ?_⟩
      split <;> simp [isNumeralChar]
    · rw [List.forall_mem_append, List.forall_mem_cons]
      exact ⟨fun c mem => h c (List.mem_of_mem_take mem), rfl,
        fun c mem => h c (List.mem_of_mem_drop mem)⟩

/-- The text of a finite number has no characters but those of numerals. -/
theorem isNumeralChar_of_mem_finiteText (b : Binary) :
    ∀ c ∈ l.finiteText b, isNumeralChar c = true := by
  unfold finiteText
  rw [List.forall_mem_append]
  constructor
  · split <;> simp [isNumeralChar]
  · split
    · rw [List.forall_mem_cons]
      refine ⟨rfl, ?_⟩
      split <;> simp [isNumeralChar]
    · unfold scientificText
      dsimp only
      split
      · exact isNumeralChar_of_mem_positionalText isNumeralChar_of_mem_toDigits _
      · exact isNumeralChar_of_mem_exponentialText isNumeralChar_of_mem_toDigits _

/-- A layout with `.0` behind whole numbers tells its numbers from rows of digits. -/
theorem exists_mem_finiteText_not_isDigit (h : l.pointZero = true) (b : Binary) :
    ∃ c ∈ l.finiteText b, c = '.' ∨ c = 'e' := by
  have point {cs : List Char} (mem : '.' ∈ cs) : ∃ c ∈ cs, c = '.' ∨ c = 'e' :=
    ⟨'.', mem, Or.inl rfl⟩
  have magnitude {cs : List Char} (sign : List Char) (some : ∃ c ∈ cs, c = '.' ∨ c = 'e') :
      ∃ c ∈ sign ++ cs, c = '.' ∨ c = 'e' :=
    some.imp fun c found => ⟨List.mem_append_right sign found.1, found.2⟩
  unfold finiteText
  refine magnitude _ ?_
  split
  · exact point (by simp)
  · unfold scientificText
    dsimp only
    split
    · refine point ?_
      unfold positionalText
      split_ifs <;> simp
    · exact ⟨'e', by simp [exponentialText], Or.inr rfl⟩

end Layout

end StrategyCanvas.Decimal
