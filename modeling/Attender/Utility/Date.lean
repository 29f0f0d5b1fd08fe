import Attender.Library.Integers
import Mathlib.Data.List.GetD

/-!
# Dates

The text of a point in time that a cookie is given as its expiry.
-/

namespace Attender.Utility

open Attender.Library

/-- The fields of `std::tm` that a date is written with. -/
structure Tm where
  sec : Nat
  min : Nat
  hour : Nat
  mday : Nat
  /-- Months since January. -/
  mon : Nat
  /-- Years since 1900. -/
  year : Int
  /-- Days since Sunday. -/
  wday : Nat

/-- `gmtime`, of seconds since the epoch. -/
def gmtime (time : Int) : Tm :=
  let days := time / 86400
  let seconds := (time % 86400).toNat
  -- days since the first of March of the year 0, in eras of 400 years
  let era := (days + 719468) / 146097
  let dayOfEra := ((days + 719468) % 146097).toNat
  let yearOfEra := (dayOfEra - dayOfEra / 1460 + dayOfEra / 36524 - dayOfEra / 146096) / 365
  let dayOfYear := dayOfEra - (365 * yearOfEra + yearOfEra / 4 - yearOfEra / 100)
  let monthsSinceMarch := (5 * dayOfYear + 2) / 153
  let mon := (monthsSinceMarch + 2) % 12
  { sec := seconds % 60
    min := seconds / 60 % 60
    hour := seconds / 3600
    mday := dayOfYear - (153 * monthsSinceMarch + 2) / 5 + 1
    mon := mon
    year := 400 * era + yearOfEra + (if mon < 2 then 1 else 0) - 1900
    wday := ((days + 4) % 7).toNat }

/-- `weekdays` of `tm_formatter`, of which the first is not the day that `tm_wday` starts with. -/
def weekdays : List Bytes := ["Mon", "Tue", "Wed", "Thu", "Fri", "Sat", "Sun"].map bytes

/-- `months` of `tm_formatter`. -/
def months : List Bytes :=
  ["Jan", "Feb", "Mar", "Apr", "May", "Jun", "Jul", "Aug", "Sep", "Oct", "Nov", "Dec"].map bytes

/-- A number with `std::setw(2)` and `std::setfill('0')`. -/
def twoDigits (n : Nat) : Bytes := if n < 10 then 48 :: toDecimal n else toDecimal n

/-- `tm_formatter`. -/
def tmFormatter (tm : Tm) (suffix : Bytes) : Bytes :=
  weekdays.getD tm.wday [] ++ bytes ", " ++ toDecimal tm.mday ++ bytes " " ++
    months.getD tm.mon [] ++ bytes " " ++ toDecimal (1900 + tm.year) ++ bytes " " ++
    twoDigits tm.hour ++ bytes ":" ++ twoDigits tm.min ++ bytes ":" ++ twoDigits tm.sec ++ suffix

/-- `date::to_gmt_string`, of nanoseconds since the epoch. -/
def toGmtString (timePoint : Int) : Bytes :=
  tmFormatter (gmtime (timePoint.tdiv 1000000000)) (bytes " GMT")

example : toGmtString 951782400000000000 = bytes "Wed, 29 Feb 2000 00:00:00 GMT" := by
  decide +kernel

/-! ### The bytes of a date -/

theorem not_mem_getD (names : List Bytes) {b : Byte} (h : ∀ name ∈ names, b ∉ name) (i : Nat) :
    b ∉ names.getD i [] := by
  rcases Nat.lt_or_ge i names.length with hlt | hge
  · rw [List.getD_eq_getElem _ _ hlt]
    exact h _ (List.getElem_mem hlt)
  · rw [List.getD_eq_default _ _ hge]
    exact List.not_mem_nil

/-- A carriage return is no part of a number. -/
theorem cr_not_mem_toDecimal (n : Int) : CR ∉ toDecimal n := by
  intro h
  rcases mem_toDecimal h with h | h
  · exact absurd h (by decide)
  · exact absurd h (by decide)

theorem cr_not_mem_twoDigits (n : Nat) : CR ∉ twoDigits n := by
  rw [twoDigits]
  split_ifs
  · rw [List.mem_cons, not_or]
    exact ⟨by decide, cr_not_mem_toDecimal n⟩
  · exact cr_not_mem_toDecimal n

/-- **A date holds no carriage return.** -/
theorem cr_not_mem_toGmtString (timePoint : Int) : CR ∉ toGmtString timePoint := by
  have hweekday := not_mem_getD weekdays (b := CR) (by decide)
  have hmonth := not_mem_getD months (b := CR) (by decide)
  simp only [toGmtString, tmFormatter, List.mem_append, not_or]
  simp only [hweekday, hmonth, cr_not_mem_toDecimal, cr_not_mem_twoDigits, not_false_iff, and_true,
    true_and]
  decide

end Attender.Utility
