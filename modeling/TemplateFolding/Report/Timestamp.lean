import TemplateFolding.Number.Decimal

/-!
# Timestamps

A moment in Coordinated Universal Time, written as a date and a time of day with its offset. Days
are counted in years that start in March, so that a leap day is the last day of its year.
-/

namespace TemplateFolding

/-- A number with leading zeros, in at least so many digits. -/
def padded (width n : Nat) : Text :=
  List.replicate (width - (decimalDigits n).length) '0' ++ decimalDigits n

/-- A day of the calendar. -/
structure CalendarDay where
  year : Nat
  month : Nat
  day : Nat
deriving DecidableEq

/-- The number of days in four centuries. -/
def daysPerEra : Nat := 146097

/-- The days from the first of March of the year zero to the first of January 1970. -/
def daysBeforeEpoch : Nat := 719468

/-- The day that is so many days after the first of January 1970. -/
def CalendarDay.ofEpochDays (days : Nat) : CalendarDay :=
  let days := days + daysBeforeEpoch
  let inEra := days % daysPerEra
  let yearInEra := (inEra - inEra / 1460 + inEra / 36524 - inEra / 146096) / 365
  let inYear := inEra - (365 * yearInEra + yearInEra / 4 - yearInEra / 100)
  let marchMonth := (5 * inYear + 2) / 153
  let month := if marchMonth < 10 then marchMonth + 3 else marchMonth - 9
  { year := yearInEra + 400 * (days / daysPerEra) + if month ≤ 2 then 1 else 0
    month
    day := inYear - (153 * marchMonth + 2) / 5 + 1 }

/-- The moment that is so many seconds after the start of 1970. -/
def timestamp (seconds : Nat) : Text :=
  let day := CalendarDay.ofEpochDays (seconds / 86400)
  padded 4 day.year ++ ['-'] ++ padded 2 day.month ++ ['-'] ++ padded 2 day.day ++ ['T'] ++
    padded 2 (seconds / 3600 % 24) ++ [':'] ++ padded 2 (seconds / 60 % 60) ++ [':'] ++
    padded 2 (seconds % 60) ++ "+00:00".toList

end TemplateFolding
