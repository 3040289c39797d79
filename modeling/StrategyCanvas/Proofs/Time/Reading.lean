import Mathlib.Data.List.TakeWhile
import Mathlib.Tactic.SplitIfs
import StrategyCanvas.Proofs.Decimal.Digits
import StrategyCanvas.Proofs.Text.Blank
import StrategyCanvas.Proofs.Time.Calendar
import StrategyCanvas.Time.Reader

/-!
# Instants are read as they were written

The text of an instant of the years 0 to 9999 is read as that instant (`readsBack_of_isPlain`). Each
part of the text is a row of digits of its own width, and is read whatever stands behind it.
-/

namespace StrategyCanvas.Time.Instant

open StrategyCanvas.Decimal (natOfDigits)
open StrategyCanvas.Text (trimLeft isBlank trimLeft_cons isBlank_of_isDigit)

/-! ## Rows of digits -/

/-- A padded number has only digits. -/
theorem isDigit_of_mem_padded {width n : Nat} {c : Char} (h : c ∈ padded width n) :
    c.isDigit = true := by
  rw [padded, List.mem_append] at h
  cases h with
  | inl zero => rw [List.eq_of_mem_replicate zero]; rfl
  | inr digit => exact Decimal.isDigit_of_mem_toDigits digit

/-- Padding does not change a number. -/
theorem natOfDigits_padded (width n : Nat) : natOfDigits (padded width n) = n :=
  (Decimal.natOfDigits_zeros_append _ _).trans (Decimal.natOfDigits_toDigits n)

/-- A number that fits is as wide as it is padded to. -/
theorem length_padded {width n : Nat} (positive : 0 < width) (h : n < 10 ^ width) :
    (padded width n).length = width := by
  have short := (Nat.length_toDigits_le_iff (b := 10) (by decide) positive).mpr h
  rw [padded, List.length_append, List.length_replicate]
  omega

/-- A padded number begins with a digit. -/
theorem padded_eq_cons (width n : Nat) : ∃ c cs, padded width n = c :: cs ∧ c.isDigit = true := by
  have some : padded width n ≠ [] := by
    rw [padded]
    exact List.append_ne_nil_of_right_ne_nil _ Nat.toDigits_ne_nil
  obtain ⟨c, cs, first⟩ := List.exists_cons_of_ne_nil some
  exact ⟨c, cs, first, isDigit_of_mem_padded (first ▸ List.mem_cons_self)⟩

/-! ## Parts -/

section

variable {width n : Nat} {rest : List Char}

/-- As many digits as a number may have, or fewer with something else behind them. -/
theorem number_padded (places : Nat) (rest : List Char) (positive : 0 < places)
    (fits : n < 10 ^ places)
    (narrow : places ≤ width) (ends : places = width ∨ ∀ c ∈ rest.head?, c.isDigit = false) :
    number width (padded places n ++ rest) = .ok (n, rest) := by
  have length := length_padded positive fits
  have digits : ((padded places n ++ rest).take width).takeWhile Char.isDigit
      = padded places n := by
    rw [List.take_append, length, List.take_of_length_le (length.trans_le narrow)]
    have stop : ∀ c ∈ (rest.take (width - places)).head?, c.isDigit = false := by
      intro c mem
      rw [List.head?_take] at mem
      split at mem
      · cases mem
      · exact ends.elim (fun same => by omega) fun other => other c mem
    rw [Decimal.takeWhile_isDigit_append stop]
    exact List.takeWhile_eq_self_iff.2 fun _ => isDigit_of_mem_padded
  obtain ⟨c, cs, first, -⟩ := padded_eq_cons places n
  unfold number
  dsimp only
  rw [digits, natOfDigits_padded, List.drop_append_of_le_length (Nat.le_refl _),
    List.drop_length, List.nil_append, if_neg (by simp [first]), if_neg (by simp [first])]

/-- There is no blank in front of a padded number. -/
theorem trimLeft_padded (places n : Nat) (rest : List Char) :
    trimLeft (padded places n ++ rest) = padded places n ++ rest := by
  obtain ⟨c, cs, first, digit⟩ := padded_eq_cons places n
  rw [first, List.cons_append, trimLeft_cons (isBlank_of_isDigit digit)]

/-- A number of two digits is read back if it is within its bounds. -/
theorem bounded_padded {least greatest : Nat} (h : least ≤ n) (h' : n ≤ greatest) (fits : n < 100)
    (rest : List Char) : bounded least greatest (padded 2 n ++ rest) = .ok (n, rest) := by
  rw [bounded, trimLeft_padded, number_padded 2 rest (by decide) fits (by decide) (Or.inl rfl)]
  simp only [bind, Except.bind]
  rw [if_pos ⟨h, h'⟩]

/-- A year of four digits is read back. -/
theorem year_padded (fits : n < 10000) (rest : List Char) :
    year (padded 4 n ++ rest) = .ok ((n : Int), rest) := by
  obtain ⟨c, cs, first, digit⟩ := padded_eq_cons 4 n
  have number := number_padded 4 rest (by decide) fits (Nat.le_refl 4) (Or.inl rfl)
  unfold year
  rw [trimLeft_padded]
  dsimp only
  rw [first, List.cons_append] at number ⊢
  have minus : c ≠ '-' := by rintro rfl; exact absurd digit (by decide)
  have plus : c ≠ '+' := by rintro rfl; exact absurd digit (by decide)
  simp [minus, plus, number, bind, Except.bind, pure, Except.pure]
  omega

/-- A separator is read in its place. -/
theorem separator_cons {c : Char} (h : isBlank c = false) (cs : List Char) :
    separator c (c :: cs) = .ok cs := by
  rw [separator, trimLeft_cons h]
  exact if_pos rfl

/-- A fraction is read as the number of nanoseconds that its places make. -/
theorem fraction_point {places : Nat} (positive : 0 < places) (narrow : places ≤ 9)
    (fits : n < 10 ^ places) :
    fraction ('.' :: (padded places n ++ ['Z'])) = .ok (n * Nat.pow 10 (9 - places), ['Z']) := by
  have letter : ∀ c ∈ ['Z'].head?, c.isDigit = false := by simp
  have number := number_padded places ['Z'] positive fits narrow (Or.inr letter)
  have length := length_padded positive fits
  unfold fraction
  simp only [number, bind, Except.bind, pure, Except.pure, List.length_append, length]
  rw [Nat.add_sub_cancel]
  rfl

/-- The nanoseconds are read back, in three, six or nine places or none. -/
theorem fraction_fractionText {nanos : Nat} (h : nanos < second) :
    fraction (fractionText nanos ++ ['Z']) = .ok (nanos, ['Z']) := by
  unfold second at h
  unfold fractionText
  split_ifs with nothing millis micros
  · rw [nothing]
    rfl
  · rw [List.cons_append, fraction_point (by decide) (by decide) (by omega)]
    congr 2
    show nanos / 1000000 * 1000000 = nanos
    omega
  · rw [List.cons_append, fraction_point (by decide) (by decide) (by omega)]
    congr 2
    show nanos / 1000 * 1000 = nanos
    omega
  · rw [List.cons_append, fraction_point (by decide) (by decide) (by omega)]
    congr 2
    exact Nat.mul_one nanos

end

/-! ## Dates and times of day -/

/-- A date is read back from its text. -/
theorem date_text {d : Date} (years : 0 ≤ d.year ∧ d.year ≤ 9999)
    (months : 1 ≤ d.month ∧ d.month ≤ 12) (days : 1 ≤ d.day ∧ d.day ≤ 31) (rest : List Char) :
    date (yearText d.year ++ '-' :: (padded 2 d.month ++ '-' :: (padded 2 d.day ++ rest)))
      = .ok (d, rest) := by
  obtain ⟨y, year⟩ := Int.eq_ofNat_of_zero_le years.1
  rw [yearText, if_pos years]
  simp only [date, bind, Except.bind, pure, Except.pure, year, Int.toNat_natCast,
    year_padded (n := y) (by omega),
    separator_cons (c := '-') (by decide), bounded_padded months.1 months.2 (by omega),
    bounded_padded days.1 days.2 (by omega)]
  rw [← year]

/-- A time of day is read back, with a leap second as a second that lasts longer. -/
theorem timeOfDay_text {hour minute secs nanos : Nat} (hours : hour ≤ 23) (minutes : minute ≤ 59)
    (seconds : secs ≤ 60) (short : nanos < second) :
    timeOfDay (padded 2 hour ++ ':' :: (padded 2 minute ++ ':' :: (padded 2 secs
        ++ (fractionText nanos ++ ['Z'])))) =
      .ok ((hour * 3600 + minute * 60 + (secs - if secs = 60 then 1 else 0),
        nanos + (if secs = 60 then 1 else 0) * second), ['Z']) := by
  simp only [timeOfDay, bind, Except.bind, pure, Except.pure,
    separator_cons (c := ':') (by decide), bounded_padded (Nat.zero_le hour) hours (by omega),
    bounded_padded (Nat.zero_le minute) minutes (by omega),
    bounded_padded (Nat.zero_le secs) seconds (by omega), fraction_fractionText short]

/-- The part of a text behind the `T`. -/
def clockText (t : Instant) : List Char :=
  let leap := if t.isLeap then 1 else 0
  padded 2 (t.secondOfDay.toNat / 3600) ++ ':' :: (padded 2 (t.secondOfDay.toNat / 60 % 60)
    ++ ':' :: (padded 2 (t.secondOfDay.toNat % 60 + leap)
      ++ (fractionText (t.nanos - leap * second) ++ ['Z'])))

/-- Instants of the years 0 to 9999. More than a second of nanoseconds stands for a leap second,
which is the last second of its minute. -/
structure IsPlain (t : Instant) : Prop where
  year : 0 ≤ (Date.ofDays (t.seconds / 86400)).year
    ∧ (Date.ofDays (t.seconds / 86400)).year ≤ 9999
  nanos : t.nanos < second ∨ t.nanos < 2 * second ∧ t.seconds % 60 = 59

/-- The clock of a plain instant is read back. -/
theorem timeOfDay_clockText {t : Instant} (h : t.IsPlain) :
    timeOfDay t.clockText = .ok ((t.secondOfDay.toNat, t.nanos), ['Z']) := by
  have day : t.secondOfDay.toNat < 86400 := by
    unfold secondOfDay
    omega
  have last (surplus : second ≤ t.nanos) :
      t.secondOfDay.toNat % 60 = 59 ∧ t.nanos < 2 * second := by
    have := h.nanos
    unfold secondOfDay
    omega
  unfold clockText
  dsimp only
  -- a leap second is written as second 60, and its nanoseconds without the surplus
  by_cases leap : second ≤ t.nanos
  · obtain ⟨minute, short⟩ := last leap
    simp only [isLeap, leap, decide_true, ↓reduceIte, minute]
    rw [timeOfDay_text (by omega) (by omega) (by decide) (by omega)]
    simp
    omega
  · simp only [isLeap, leap, decide_false, Bool.false_eq_true, ↓reduceIte, Nat.add_zero,
      Nat.zero_mul, Nat.sub_zero]
    rw [timeOfDay_text (by omega) (by omega) (by omega) (by omega), if_neg (by omega)]
    simp
    omega

/-! ## Whole texts -/

/-- An instant is written as a date, a letter and a time of day. -/
theorem toList_text (t : Instant) : t.text.toList =
    yearText (Date.ofDays (t.seconds / 86400)).year
      ++ '-' :: (padded 2 (Date.ofDays (t.seconds / 86400)).month
        ++ '-' :: (padded 2 (Date.ofDays (t.seconds / 86400)).day ++ 'T' :: t.clockText)) := by
  simp [text, clockText]

/-- The text of an instant is read as that instant. -/
def ReadsBack (t : Instant) : Prop := read t.text = .ok t

/-- Every plain instant is read back. -/
theorem readsBack_of_isPlain {t : Instant} (h : t.IsPlain) : t.ReadsBack := by
  have date :=
    date_text h.year (Date.month_ofDays_mem _) (Date.day_ofDays_mem _) ('T' :: t.clockText)
  have between : betweenDateAndTime ('T' :: t.clockText) = .ok t.clockText := rfl
  have zone : offset (trimLeft ['Z']) = .ok (0, []) := by decide
  have valid := Date.isValid_ofDays (t.seconds / 86400)
  have year : isYear (Date.ofDays (t.seconds / 86400)).year = true := by
    have := h.year
    simp only [isYear, Bool.and_eq_true, decide_eq_true_eq]
    omega
  have place : (Date.ofDays (t.seconds / 86400)).toDays * 86400 + t.secondOfDay.toNat - 0
      = t.seconds := by
    rw [Date.toDays_ofDays]
    unfold secondOfDay
    omega
  unfold ReadsBack read
  rw [toList_text]
  simp only [date, between, timeOfDay_clockText h, zone, valid, year, place, bind, Except.bind,
    pure, Except.pure]
  rw [if_neg (by decide), if_neg (by decide), if_pos trivial]

end StrategyCanvas.Time.Instant
