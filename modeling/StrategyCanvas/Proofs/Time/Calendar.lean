import Mathlib.Tactic.IntervalCases
import Mathlib.Tactic.SplitIfs
import StrategyCanvas.Time.Calendar

/-!
# Days and dates

Every day has a date that exists (`isValid_ofDays`) and lies as many days from 1970-01-01 as the day
(`toDays_ofDays`). Both are told of the place of the day in its era of 400 years.
-/

namespace StrategyCanvas.Time

/-- A day of an era by its century, its group of four years, its year and its day in that year, all
counted from zero and years from March. A leap day is the last of its year. -/
structure EraDay where
  century : Int
  group : Int
  year : Int
  day : Int
  century_mem : 0 ≤ century ∧ century ≤ 3
  group_mem : 0 ≤ group ∧ group ≤ 24
  year_mem : 0 ≤ year ∧ year ≤ 3
  day_mem : 0 ≤ day ∧ (day ≤ 364 ∨ day = 365 ∧ year = 3 ∧ (group < 24 ∨ century = 3))

namespace EraDay

/-- How many days of the era lie before. -/
def number (e : EraDay) : Int := 36524 * e.century + 1461 * e.group + 365 * e.year + e.day

/-- How many years of the era lie before. -/
def yearOfEra (e : EraDay) : Int := 100 * e.century + 4 * e.group + e.year

/-- Every day of an era has its place in it. -/
theorem exists_number_eq {n : Int} (h : 0 ≤ n) (h' : n < 146097) : ∃ e : EraDay, e.number = n := by
  let century := min (n / 36524) 3
  let group := (n - 36524 * century) / 1461
  let year := min ((n - 36524 * century) % 1461 / 365) 3
  have centuries : 0 ≤ century ∧ century ≤ 3 := by omega
  have groups : 0 ≤ group ∧ group ≤ 24 := by omega
  have years : 0 ≤ year ∧ year ≤ 3 := by omega
  refine ⟨⟨century, group, year, n - 36524 * century - 1461 * group - 365 * year, centuries, groups,
    years, by omega, by omega⟩, ?_⟩
  dsimp only [number]
  omega

variable (e : EraDay)

theorem number_mem : 0 ≤ e.number ∧ e.number < 146097 := by
  have := e.century_mem
  have := e.group_mem
  have := e.year_mem
  have := e.day_mem
  unfold number
  omega

/-- Days beyond 1460 in four years, 36524 in a century and 146096 in an era are the leap days that a
number of days counts too many. -/
theorem yearOfEra_eq : (e.number - e.number / 1460 + e.number / 36524 - e.number / 146096) / 365
    = e.yearOfEra := by
  obtain ⟨c, q, y, d, _, _, _, _⟩ := e
  unfold number yearOfEra
  dsimp only
  have eras : (36524 * c + 1461 * q + 365 * y + d) / 146096
      = if c = 3 ∧ q = 24 ∧ y = 3 ∧ d = 365 then 1 else 0 := by
    split <;> omega
  have centuries : (36524 * c + 1461 * q + 365 * y + d) / 36524
      = if c = 3 ∧ q = 24 ∧ y = 3 ∧ d = 365 then 4 else c := by
    split <;> omega
  have groups : (36524 * c + 1461 * q + 365 * y + d) / 1460
      = if 24 * c + q + 365 * y + d < 1460 then 25 * c + q else 25 * c + q + 1 := by
    split <;> omega
  omega

/-- How many months from March lie before the day in its year. -/
def month : Int := (5 * e.day + 2) / 153

theorem month_mem : 0 ≤ e.month ∧ e.month ≤ 11 := by
  have := e.day_mem
  unfold month
  omega

/-- The date of a day of an era. -/
def date (era : Int) : Date :=
  let month := if e.month < 10 then e.month + 3 else e.month - 9
  let year := e.yearOfEra + era * 400
  ⟨if month ≤ 2 then year + 1 else year, month.toNat,
    (e.day - (153 * e.month + 2) / 5 + 1).toNat⟩

theorem ofDays_eq (era : Int) : Date.ofDays (era * 146097 + e.number - 719468) = e.date era := by
  have bounds := e.number_mem
  have whole : (era * 146097 + e.number - 719468 + 719468) / 146097 = era := by omega
  have part : (era * 146097 + e.number - 719468 + 719468) % 146097 = e.number := by omega
  have day : e.number - (365 * e.yearOfEra + e.yearOfEra / 4 - e.yearOfEra / 100) = e.day := by
    have := e.century_mem
    have := e.group_mem
    have := e.year_mem
    unfold number yearOfEra
    omega
  unfold Date.ofDays
  dsimp only
  rw [whole, part, e.yearOfEra_eq, day]
  rfl

/-- Months are counted from March again when the days are counted. -/
theorem toDays_date (era : Int) : (e.date era).toDays = era * 146097 + e.number - 719468 := by
  have months := e.month_mem
  have days := e.day_mem
  have year : (if (e.date era).month ≤ 2 then (e.date era).year - 1 else (e.date era).year)
      = e.yearOfEra + era * 400 := by
    unfold date
    dsimp only
    split_ifs <;> omega
  have month : (((e.date era).month : Int) + 9) % 12 = e.month := by
    unfold date
    dsimp only
    split_ifs <;> omega
  have day : (153 * e.month + 2) / 5 + ((e.date era).day : Int) - 1 = e.day := by
    unfold date EraDay.month
    dsimp only
    omega
  have := e.century_mem
  have := e.group_mem
  have := e.year_mem
  unfold Date.toDays
  dsimp only
  rw [year, month, day]
  unfold number yearOfEra
  omega

theorem isLeapYear_date (era : Int) : isLeapYear (e.yearOfEra + era * 400 + 1)
    = decide (e.year = 3 ∧ (e.group < 24 ∨ e.century = 3)) := by
  have := e.century_mem
  have := e.group_mem
  have := e.year_mem
  unfold isLeapYear yearOfEra
  rw [Bool.eq_iff_iff]
  simp only [Bool.and_eq_true, Bool.or_eq_true, decide_eq_true_eq]
  omega

/-- The day of a date is one of its month. -/
theorem day_date_mem (era : Int) : 1 ≤ (e.date era).day
    ∧ (e.date era).day ≤ daysInMonth (e.date era).year (e.date era).month := by
  have days := e.day_mem
  have leap := e.isLeapYear_date era
  have month : e.month = (5 * e.day + 2) / 153 := rfl
  obtain ⟨least, greatest⟩ := e.month_mem
  unfold date
  dsimp only
  generalize e.month = m at least greatest month ⊢
  interval_cases m
  case «11» =>
    have february : daysInMonth (e.yearOfEra + era * 400 + 1) 2
        = if e.year = 3 ∧ (e.group < 24 ∨ e.century = 3) then 29 else 28 := by
      simp [daysInMonth, leap]
    simp [february]
    omega
  all_goals
    simp [daysInMonth]
    omega

end EraDay

namespace Date

/-- The day of an era that a day is. -/
theorem exists_ofDays_eq (days : Int) : ∃ (era : Int) (e : EraDay),
    days = era * 146097 + e.number - 719468 ∧ ofDays days = e.date era := by
  obtain ⟨e, number⟩ :=
    EraDay.exists_number_eq (n := (days + 719468) % 146097) (by omega) (by omega)
  have parts : days = (days + 719468) / 146097 * 146097 + e.number - 719468 := by omega
  refine ⟨(days + 719468) / 146097, e, parts, ?_⟩
  rw [← e.ofDays_eq, ← parts]

/-- A day is counted as the day that its date was made from. -/
theorem toDays_ofDays (days : Int) : (ofDays days).toDays = days := by
  obtain ⟨era, e, parts, date⟩ := exists_ofDays_eq days
  rw [date, e.toDays_date, parts]

/-- Every day has a date that there is. -/
theorem isValid_ofDays (days : Int) : (ofDays days).isValid = true := by
  obtain ⟨era, e, -, date⟩ := exists_ofDays_eq days
  simp [date, isValid, e.day_date_mem era]

theorem month_ofDays_mem (days : Int) : 1 ≤ (ofDays days).month ∧ (ofDays days).month ≤ 12 := by
  obtain ⟨era, e, -, date⟩ := exists_ofDays_eq days
  have := e.month_mem
  rw [date, EraDay.date]
  dsimp only
  split_ifs <;> omega

theorem day_ofDays_mem (days : Int) : 1 ≤ (ofDays days).day ∧ (ofDays days).day ≤ 31 := by
  have valid := isValid_ofDays days
  simp only [isValid, Bool.and_eq_true, decide_eq_true_eq] at valid
  have short : daysInMonth (ofDays days).year (ofDays days).month ≤ 31 := by
    unfold daysInMonth
    split_ifs <;> omega
  exact ⟨valid.1, valid.2.trans short⟩

end Date

end StrategyCanvas.Time
