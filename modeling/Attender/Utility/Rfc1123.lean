import Attender.Library.Calendar
import Attender.Utility.Date

/-!
# Dates as in RFC 2616

The `rfc1123-date` of section 3.3.1: a text of fixed length whose name of a day
is that of the date, so that it can be read again (`parse_rfc1123Date`). What
`date::to_gmt_string` writes is never one. The table that it takes the name of
the day from starts with Monday, where `tm_wday` starts with Sunday; and the day
of the month is written without a width. The rest is as it should be.
-/

namespace Attender.Utility

open Attender.Library

/-! ### The format -/

/-- The names of the days, starting with that of `tm_wday`. -/
def dayNames : List Bytes := ["Sun", "Mon", "Tue", "Wed", "Thu", "Fri", "Sat"].map bytes

def monthNames : List Bytes :=
  ["Jan", "Feb", "Mar", "Apr", "May", "Jun", "Jul", "Aug", "Sep", "Oct", "Nov", "Dec"].map bytes

/-- The name of the day of a time, in seconds since the epoch. -/
def weekdayName (time : Int) : Bytes := dayNames.getD (gmtime time).wday []

/-- What stands behind the day of the month. -/
def monthAndTime (tm : Tm) : Bytes :=
  bytes " " ++ monthNames.getD tm.mon [] ++ bytes " " ++ fixedDigits 4 (1900 + tm.year).toNat ++
    bytes " " ++ fixedDigits 2 tm.hour ++ bytes ":" ++ fixedDigits 2 tm.min ++ bytes ":" ++
    fixedDigits 2 tm.sec ++ bytes " GMT"

/-- A date with the name of some day. -/
def rfc1123Text (weekday : Bytes) (tm : Tm) : Bytes :=
  weekday ++ bytes ", " ++ fixedDigits 2 tm.mday ++ monthAndTime tm

/-- The `rfc1123-date` of a time. -/
def rfc1123Date (time : Int) : Bytes := rfc1123Text (weekdayName time) (gmtime time)

/-- The way back from `gmtime`. -/
def timegm (tm : Tm) : Int :=
  daysSinceEpoch (1900 + tm.year) tm.mon tm.mday * 86400 + tm.hour * 3600 + tm.min * 60 + tm.sec

/-- A text cut in pieces of some widths, and what is behind them. -/
def cutWidths : List Nat → Bytes → List Bytes
  | [], text => [text]
  | width :: widths, text => text.take width :: cutWidths widths (text.drop width)

def readNumber (s : Bytes) : Option Nat := if IsDecimal s then some (decimalValue s) else none

/-- What stands between the fields of a date, and behind them. -/
def separators : List Bytes := [", ", " ", " ", " ", ":", ":", " GMT"].map bytes

/-- The time that a date stands for. The name of the day has to be that of the date. -/
def parseRfc1123 (text : Bytes) : Option Int :=
  match cutWidths [3, 2, 2, 1, 3, 1, 4, 1, 2, 1, 2, 1, 2] text with
  | [weekday, s₀, mday, s₁, mon, s₂, year, s₃, hour, s₄, min, s₅, sec, s₆] =>
    if [s₀, s₁, s₂, s₃, s₄, s₅, s₆] = separators then do
      let mday ← readNumber mday
      let mon ← monthNames.idxOf? mon
      let year ← readNumber year
      let hour ← readNumber hour
      let min ← readNumber min
      let sec ← readNumber sec
      let time := timegm { sec, min, hour, mday, mon, year := year - 1900, wday := 0 }
      if weekday = weekdayName time then some time else none
    else none
  | _ => none

/-! ### The calendar of `gmtime` -/

/-- **What `gmtime` returns**, by the days from the first of March of the year 0. -/
theorem gmtime_eq (time : Int) :
    ∃ (era : Int) (yearOfEra monthsSinceMarch days : Nat),
      yearOfEra ≤ 399 ∧ monthsSinceMarch ≤ 11 ∧ days ≤ 30 ∧
        time / 86400 + 719468 = 146097 * era +
          (365 * yearOfEra + yearOfEra / 4 - yearOfEra / 100 + (153 * monthsSinceMarch + 2) / 5 +
            days : Nat) ∧
        gmtime time =
          { sec := (time % 86400).toNat % 60
            min := (time % 86400).toNat / 60 % 60
            hour := (time % 86400).toNat / 3600
            mday := days + 1
            mon := (monthsSinceMarch + 2) % 12
            year := 400 * era + yearOfEra +
              (if (monthsSinceMarch + 2) % 12 < 2 then 1 else 0) - 1900
            wday := ((time / 86400 + 4) % 7).toNat } := by
  have hera : ((time / 86400 + 719468) % 146097).toNat < 146097 := by omega
  obtain ⟨hyear, hlow, hhigh⟩ := yearOfEra_bounds hera rfl
  obtain ⟨hmonth, hle, hmday⟩ := monthsSinceMarch_bounds (Nat.sub_le_iff_le_add'.mpr hhigh) rfl
  refine ⟨_, _, _, _, hyear, hmonth, hmday, ?_, rfl⟩
  omega

/-- The fields of a date. -/
structure Tm.InRange (tm : Tm) : Prop where
  sec : tm.sec < 60
  min : tm.min < 60
  hour : tm.hour < 24
  mday_pos : 1 ≤ tm.mday
  mday_le : tm.mday ≤ 31
  mon : tm.mon < 12
  wday : tm.wday < 7

theorem gmtime_inRange (time : Int) : (gmtime time).InRange := by
  obtain ⟨era, yearOfEra, monthsSinceMarch, days, -, -, hdays, -, htm⟩ := gmtime_eq time
  rw [htm]
  constructor <;> dsimp only <;> omega

/-- **`gmtime` can be undone.** -/
theorem timegm_gmtime (time : Int) : timegm (gmtime time) = time := by
  obtain ⟨era, yearOfEra, monthsSinceMarch, days, hyear, hmonth, -, htime, htm⟩ :=
    gmtime_eq time
  have hmarch := daysBeforeMonth_of_march (400 * era + yearOfEra) hmonth
  have hepoch : daysBeforeYear 1970 = 719162 := rfl
  have hfour : (400 * era + yearOfEra) / 4 = 100 * era + (yearOfEra / 4 : Nat) := by omega
  have hhundred : (400 * era + yearOfEra) / 100 = 4 * era + (yearOfEra / 100 : Nat) := by omega
  have hera : (400 * era + yearOfEra) / 400 = era := by omega
  dsimp only at hmarch
  rw [hfour, hhundred, hera] at hmarch
  rw [htm]
  simp only [timegm, daysSinceEpoch, add_sub_cancel, hmarch, hepoch]
  omega

/-- The end of the year 9999, in seconds since the epoch. -/
def endOfYear9999 : Int := daysSinceEpoch 10000 0 1 * 86400

/-- January and February belong to the year that started with the March before. -/
theorem mon_lt_two_iff {monthsSinceMarch : Nat} (h : monthsSinceMarch ≤ 11) :
    (monthsSinceMarch + 2) % 12 < 2 ↔ 10 ≤ monthsSinceMarch := by
  omega

theorem gmtime_year (time : Int) (h₀ : 0 ≤ time) (h₁ : time < endOfYear9999) :
    1970 ≤ 1900 + (gmtime time).year ∧ 1900 + (gmtime time).year ≤ 9999 := by
  obtain ⟨era, yearOfEra, monthsSinceMarch, days, hyear, hmonth, hdays, htime, htm⟩ :=
    gmtime_eq time
  have hend : endOfYear9999 = 253402300800 := rfl
  have hlow : 719468 ≤ time / 86400 + 719468 := by omega
  have hhigh : time / 86400 + 719468 < 3652365 := by omega
  rw [htime] at hlow hhigh
  rw [htm]
  dsimp only
  constructor
  · obtain h4 | rfl | h4 : era < 4 ∨ era = 4 ∨ 4 < era := by omega
    · omega
    · have h369 : 369 ≤ yearOfEra := by omega
      obtain rfl | h369 : yearOfEra = 369 ∨ 369 < yearOfEra := by omega
      · -- it starts on the first of January of that year
        have hmarch : 10 ≤ monthsSinceMarch := by omega
        rw [if_pos ((mon_lt_two_iff hmonth).mpr hmarch)]
        omega
      · omega
    · omega
  · obtain h24 | rfl | h24 : era < 24 ∨ era = 24 ∨ 24 < era := by omega
    · omega
    · obtain h399 | rfl : yearOfEra < 399 ∨ yearOfEra = 399 := by omega
      · omega
      · -- and it ends with December
        have hmarch : monthsSinceMarch ≤ 9 := by omega
        rw [if_neg ((mon_lt_two_iff hmonth).not.mpr (Nat.not_le.mpr (Nat.lt_succ_of_le hmarch)))]
        omega
    · omega

/-! ### Reading a date -/

theorem cutWidths_append {piece : Bytes} {width : Nat} (h : piece.length = width)
    (widths : List Nat) (rest : Bytes) :
    cutWidths (width :: widths) (piece ++ rest) = piece :: cutWidths widths rest := by
  rw [cutWidths, List.take_left' h, List.drop_left' h]

theorem readNumber_fixedDigits {width n : Nat} (h : n < 10 ^ (width + 1)) :
    readNumber (fixedDigits (width + 1) n) = some n := by
  have hne : fixedDigits (width + 1) n ≠ [] := by
    intro hnil
    have hlength := length_fixedDigits (width + 1) n
    rw [hnil] at hlength
    cases hlength
  rw [readNumber, if_pos ⟨hne, fun b hb => isDigit_of_mem_fixedDigits hb⟩,
    decimalValue_fixedDigits h]

theorem monthNames_getD {mon : Nat} (h : mon < 12) :
    (monthNames.getD mon []).length = 3 ∧
      monthNames.idxOf? (monthNames.getD mon []) = some mon := by
  have hall : ∀ mon < 12, (monthNames.getD mon []).length = 3 ∧
      monthNames.idxOf? (monthNames.getD mon []) = some mon := by
    decide
  exact hall mon h

/-- The names of the days have three letters, and those of `tm_formatter` are those of other
days. -/
theorem dayNames_getD {wday : Nat} (h : wday < 7) :
    (dayNames.getD wday []).length = 3 ∧ (weekdays.getD wday []).length = 3 ∧
      weekdays.getD wday [] ≠ dayNames.getD wday [] := by
  have hall : ∀ wday < 7, (dayNames.getD wday []).length = 3 ∧
      (weekdays.getD wday []).length = 3 ∧
      weekdays.getD wday [] ≠ dayNames.getD wday [] := by
    decide
  exact hall wday h

/-- **What is read** of a date with some name of a day. -/
theorem parse_rfc1123Text {weekday : Bytes} (hweekday : weekday.length = 3) {tm : Tm}
    (h : tm.InRange) (hyear : 0 ≤ 1900 + tm.year ∧ 1900 + tm.year ≤ 9999) :
    parseRfc1123 (rfc1123Text weekday tm) =
      if weekday = weekdayName (timegm tm) then some (timegm tm) else none := by
  obtain ⟨hmonth, hindex⟩ := monthNames_getD h.mon
  have hcut : cutWidths [3, 2, 2, 1, 3, 1, 4, 1, 2, 1, 2, 1, 2] (rfc1123Text weekday tm) =
      [weekday, bytes ", ", fixedDigits 2 tm.mday, bytes " ", monthNames.getD tm.mon [], bytes " ",
        fixedDigits 4 (1900 + tm.year).toNat, bytes " ", fixedDigits 2 tm.hour, bytes ":",
        fixedDigits 2 tm.min, bytes ":", fixedDigits 2 tm.sec, bytes " GMT"] := by
    have hcomma : (bytes ", ").length = 2 := rfl
    have hspace : (bytes " ").length = 1 := rfl
    have hcolon : (bytes ":").length = 1 := rfl
    have hnumber := length_fixedDigits
    simp only [rfc1123Text, monthAndTime, List.append_assoc]
    rw [cutWidths_append hweekday, cutWidths_append hcomma, cutWidths_append (hnumber 2 _),
      cutWidths_append hspace, cutWidths_append hmonth, cutWidths_append hspace,
      cutWidths_append (hnumber 4 _), cutWidths_append hspace, cutWidths_append (hnumber 2 _),
      cutWidths_append hcolon, cutWidths_append (hnumber 2 _), cutWidths_append hcolon,
      cutWidths_append (hnumber 2 _), cutWidths]
  have htwo : ∀ n : Nat, n < 100 → readNumber (fixedDigits 2 n) = some n :=
    fun n hn => readNumber_fixedDigits hn
  have hmday := htwo tm.mday (by have := h.mday_le; omega)
  have hhour := htwo tm.hour (by have := h.hour; omega)
  have hmin := htwo tm.min (by have := h.min; omega)
  have hsec := htwo tm.sec (by have := h.sec; omega)
  have hfour : readNumber (fixedDigits 4 (1900 + tm.year).toNat) = some (1900 + tm.year).toNat :=
    readNumber_fixedDigits (by omega)
  have htime : timegm { tm with year := ((1900 + tm.year).toNat : Int) - 1900, wday := 0 } =
      timegm tm := by
    rw [Int.toNat_of_nonneg hyear.1, add_sub_cancel_left]
    rfl
  rw [parseRfc1123, hcut]
  dsimp only
  have hseparators : [bytes ", ", bytes " ", bytes " ", bytes " ", bytes ":", bytes ":",
      bytes " GMT"] = separators := rfl
  rw [if_pos hseparators, hmday, hindex, hfour, hhour, hmin, hsec]
  simp only [Option.bind_eq_bind, Option.bind_some]
  rw [htime]

/-- **An `rfc1123-date` is read again.** -/
theorem parse_rfc1123Date {time : Int} (h₀ : 0 ≤ time) (h₁ : time < endOfYear9999) :
    parseRfc1123 (rfc1123Date time) = some time := by
  have hrange := gmtime_inRange time
  have hyear := gmtime_year time h₀ h₁
  have hname : (weekdayName time).length = 3 := (dayNames_getD hrange.wday).1
  rw [rfc1123Date, parse_rfc1123Text hname hrange (by omega), timegm_gmtime, if_pos rfl]

/-! ### What `to_gmt_string` writes -/

theorem twoDigits_eq {n : Nat} (h : n < 100) : twoDigits n = fixedDigits 2 n := by
  rw [twoDigits]
  split_ifs with hn
  · have hzero : n / 10 = 0 := Nat.div_eq_of_lt hn
    rw [toDecimal_eq_fixedDigits 0 (Or.inl rfl) hn, fixedDigits, fixedDigits, fixedDigits, hzero]
    rfl
  · exact toDecimal_eq_fixedDigits 1 (Or.inr (Nat.not_lt.mp hn)) h

theorem toDecimal_eq_iff {n : Nat} (h : n < 100) : toDecimal n = fixedDigits 2 n ↔ 10 ≤ n := by
  constructor
  · intro heq
    by_contra hn
    rw [toDecimal_eq_fixedDigits 0 (Or.inl rfl) (Nat.not_le.mp hn)] at heq
    have hlength := congrArg List.length heq
    rw [length_fixedDigits, length_fixedDigits] at hlength
    omega
  · intro hn
    exact toDecimal_eq_fixedDigits 1 (Or.inr hn) h

section ToGmtString

variable {timePoint : Int}

/-- **What `date::to_gmt_string` writes**: the month, the year and the time are as in an
`rfc1123-date`. -/
theorem toGmtString_eq (h₀ : 0 ≤ timePoint) (h₁ : timePoint < endOfYear9999 * 1000000000) :
    toGmtString timePoint =
      weekdays.getD (gmtime (timePoint / 1000000000)).wday [] ++ bytes ", " ++
        toDecimal (gmtime (timePoint / 1000000000)).mday ++
          monthAndTime (gmtime (timePoint / 1000000000)) := by
  generalize htime : timePoint / 1000000000 = time
  have hrange := gmtime_inRange time
  have hyear := gmtime_year time (by omega) (by omega)
  have hfour : toDecimal (1900 + (gmtime time).year) =
      fixedDigits 4 (1900 + (gmtime time).year).toNat := by
    rw [← toDecimal_eq_fixedDigits 3 (by omega) (by omega),
      Int.toNat_of_nonneg (by omega)]
  have hmonths : months = monthNames := rfl
  rw [toGmtString, Int.tdiv_eq_ediv_of_nonneg h₀, htime, tmFormatter, monthAndTime, hmonths, hfour,
    twoDigits_eq (Nat.lt_trans hrange.hour (by decide)),
    twoDigits_eq (Nat.lt_trans hrange.min (by decide)),
    twoDigits_eq (Nat.lt_trans hrange.sec (by decide))]
  simp only [List.append_assoc]

theorem parse_eq_none {weekday day : Bytes} (hweekday : weekday.length = 3) (hday : day.length = 2)
    (hnumber : readNumber day = none) (rest : Bytes) :
    parseRfc1123 (weekday ++ (bytes ", " ++ (day ++ rest))) = none := by
  have hcomma : (bytes ", ").length = 2 := rfl
  rw [parseRfc1123, cutWidths_append hweekday, cutWidths_append hcomma, cutWidths_append hday]
  simp only [cutWidths, hnumber]
  split_ifs
  · rfl
  · rfl

/-- A day of one digit is not read: the space behind it is taken for the second. -/
theorem parse_of_mday_lt {weekday : Bytes} (hweekday : weekday.length = 3) {tm : Tm}
    (h : tm.mday < 10) :
    parseRfc1123 (weekday ++ bytes ", " ++ toDecimal tm.mday ++ monthAndTime tm) = none := by
  have hday : (fixedDigits 1 tm.mday ++ bytes " ").length = 2 := by
    rw [List.length_append, length_fixedDigits]
    rfl
  have hnumber : readNumber (fixedDigits 1 tm.mday ++ bytes " ") = none := by
    refine if_neg fun hdecimal => ?_
    have hspace := hdecimal.2 32 (List.mem_append_right _ (List.mem_singleton_self 32))
    exact absurd hspace (by decide)
  have hnone := parse_eq_none hweekday hday hnumber
  rw [toDecimal_eq_fixedDigits 0 (Or.inl rfl) h, monthAndTime]
  simp only [List.append_assoc] at hnone ⊢
  exact hnone _

/-- **`date::to_gmt_string` writes no `rfc1123-date`**, for any time: the day that it names is never
that of the date; what is behind the name is as it should be exactly from the tenth of a month on;
and so the text is not that of the time, and is not read as any. -/
theorem toGmtString_ne_rfc1123Date (timePoint : Int) (h₀ : 0 ≤ timePoint)
    (h₁ : timePoint < endOfYear9999 * 1000000000) :
    (toGmtString timePoint).take 3 ≠ weekdayName (timePoint / 1000000000) ∧
      ((toGmtString timePoint).drop 3 = (rfc1123Date (timePoint / 1000000000)).drop 3 ↔
        10 ≤ (gmtime (timePoint / 1000000000)).mday) ∧
      toGmtString timePoint ≠ rfc1123Date (timePoint / 1000000000) ∧
      parseRfc1123 (toGmtString timePoint) = none := by
  have htext := toGmtString_eq h₀ h₁
  have hyear := gmtime_year (timePoint / 1000000000) (by omega) (by omega)
  generalize timePoint / 1000000000 = time at htext hyear ⊢
  have hrange := gmtime_inRange time
  have hname : (weekdayName time).length = 3 := (dayNames_getD hrange.wday).1
  obtain ⟨-, hlength, hne⟩ := dayNames_getD hrange.wday
  rw [← weekdayName] at hne
  have hmday : (gmtime time).mday < 100 := Nat.lt_of_le_of_lt hrange.mday_le (by decide)
  have htake : (toGmtString timePoint).take 3 ≠ weekdayName time := by
    rw [htext]
    simp only [List.append_assoc]
    rw [List.take_left' hlength]
    exact hne
  refine ⟨htake, ?_, ?_, ?_⟩
  · rw [htext, rfc1123Date, rfc1123Text]
    simp only [List.append_assoc]
    rw [List.drop_left' hlength, List.drop_left' hname, List.append_cancel_left_eq,
      List.append_cancel_right_eq, toDecimal_eq_iff hmday]
  · intro heq
    rw [heq, rfc1123Date, rfc1123Text] at htake
    simp only [List.append_assoc] at htake
    rw [List.take_left' hname] at htake
    exact htake rfl
  · by_cases h10 : 10 ≤ (gmtime time).mday
    · rw [htext, (toDecimal_eq_iff hmday).mpr h10]
      show parseRfc1123 (rfc1123Text _ (gmtime time)) = none
      rw [parse_rfc1123Text hlength hrange (by omega), timegm_gmtime, if_neg hne]
    · rw [htext]
      exact parse_of_mday_lt hlength (Nat.not_le.mp h10)

/-- The leap day of the year 2000 was a Tuesday. -/
theorem toGmtString_leap_day :
    toGmtString 951782400000000000 = bytes "Wed, 29 Feb 2000 00:00:00 GMT" ∧
      rfc1123Date 951782400 = bytes "Tue, 29 Feb 2000 00:00:00 GMT" ∧
      toGmtString 951782400000000000 ≠ rfc1123Date 951782400 ∧
      parseRfc1123 (rfc1123Date 951782400) = some 951782400 ∧
      parseRfc1123 (toGmtString 951782400000000000) = none := by
  decide +kernel

/-- The epoch, on the first of a month. -/
theorem toGmtString_ne_rfc1123Date_epoch :
    toGmtString 0 ≠ rfc1123Date 0 ∧ parseRfc1123 (toGmtString 0) = none :=
  (toGmtString_ne_rfc1123Date 0 le_rfl (by decide)).2.2

end ToGmtString

end Attender.Utility
