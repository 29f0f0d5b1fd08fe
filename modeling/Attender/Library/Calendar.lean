import Mathlib.Tactic.IntervalCases
import Mathlib.Tactic.SplitIfs

/-!
# The Gregorian calendar

Days counted from a date, and what the usual algorithm for the way back rests
on. It cuts the days from the first of March of the year 0 in eras of 400 years,
and finds the year in the era (`yearOfEra_bounds`) and the month in the year
(`monthsSinceMarch_bounds`) by divisions.
-/

namespace Attender.Library

/-- A leap year. -/
def IsLeapYear (year : Int) : Prop := year % 4 = 0 ∧ (year % 100 ≠ 0 ∨ year % 400 = 0)

instance (year : Int) : Decidable (IsLeapYear year) := inferInstanceAs (Decidable (_ ∧ _))

/-- The days from the first of January of the year 1 to that of `year`. -/
def daysBeforeYear (year : Int) : Int :=
  365 * (year - 1) + (year - 1) / 4 - (year - 1) / 100 + (year - 1) / 400

/-- The days from the first of January to that of a month, which is counted from January. -/
def daysBeforeMonth (year : Int) (mon : Nat) : Int :=
  [0, 31, 59, 90, 120, 151, 181, 212, 243, 273, 304, 334].getD mon 0 +
    if 2 ≤ mon ∧ IsLeapYear year then 1 else 0

/-- The days from the first of January 1970 to a date. -/
def daysSinceEpoch (year : Int) (mon mday : Nat) : Int :=
  daysBeforeYear year + daysBeforeMonth year mon + (mday - 1) - daysBeforeYear 1970

/-- **The length of a year.** -/
theorem daysBeforeYear_succ (year : Int) :
    daysBeforeYear (year + 1) = daysBeforeYear year + if IsLeapYear year then 366 else 365 := by
  unfold daysBeforeYear IsLeapYear
  split_ifs with h
  · omega
  · omega

/-- The days before a month, counted from the first of March of the year 0. -/
theorem daysBeforeMonth_of_march (year : Int) {monthsSinceMarch : Nat} (h : monthsSinceMarch ≤ 11) :
    let mon := (monthsSinceMarch + 2) % 12
    let year' := year + if mon < 2 then 1 else 0
    daysBeforeYear year' + daysBeforeMonth year' mon =
      365 * year + year / 4 - year / 100 + year / 400 + ((153 * monthsSinceMarch + 2) / 5 : Nat) -
        306 := by
  have hyear := daysBeforeYear_succ year
  have hbefore : daysBeforeYear (year + 1) =
      365 * year + year / 4 - year / 100 + year / 400 := by
    rw [daysBeforeYear, Int.add_sub_cancel]
  by_cases hleap : IsLeapYear year
  · rw [hbefore, if_pos hleap] at hyear
    interval_cases monthsSinceMarch <;> simp [daysBeforeMonth, hleap, hbefore] <;> omega
  · rw [hbefore, if_neg hleap] at hyear
    interval_cases monthsSinceMarch <;> simp [daysBeforeMonth, hleap, hbefore] <;> omega

/-- The year in an era, by the days since its start. -/
theorem yearOfEra_bounds {dayOfEra yearOfEra : Nat} (h : dayOfEra < 146097)
    (hyear : yearOfEra =
      (dayOfEra - dayOfEra / 1460 + dayOfEra / 36524 - dayOfEra / 146096) / 365) :
    yearOfEra ≤ 399 ∧ 365 * yearOfEra + yearOfEra / 4 - yearOfEra / 100 ≤ dayOfEra ∧
      dayOfEra ≤ 365 * yearOfEra + yearOfEra / 4 - yearOfEra / 100 + 365 := by
  obtain hlt | rfl : dayOfEra < 146096 ∨ dayOfEra = 146096 := by omega
  · rw [Nat.div_eq_of_lt hlt, Nat.sub_zero] at hyear
    generalize hleap : dayOfEra / 1460 = leapDays at hyear
    generalize hdrop : dayOfEra / 36524 = century at hyear
    have h3 : century ≤ 3 := by omega
    have hcentury : yearOfEra / 100 = century := by interval_cases century <;> omega
    have hlow : yearOfEra / 4 ≤ leapDays := by omega
    have hhigh : leapDays ≤ yearOfEra / 4 + 1 := by omega
    omega
  · -- the last day of an era, which is the last of a leap year
    subst hyear
    decide

/-- The month in a year that starts with March, by the days since its start. -/
theorem monthsSinceMarch_bounds {dayOfYear monthsSinceMarch : Nat} (h : dayOfYear ≤ 365)
    (hmonth : monthsSinceMarch = (5 * dayOfYear + 2) / 153) :
    monthsSinceMarch ≤ 11 ∧ (153 * monthsSinceMarch + 2) / 5 ≤ dayOfYear ∧
      dayOfYear - (153 * monthsSinceMarch + 2) / 5 ≤ 30 := by
  omega

end Attender.Library
