import SourceIndex.Text.Decimal

/-!
# Moments as text

A moment is a number of seconds since the start of 1970, and its text is the date
and time in the Gregorian calendar, which is used for all years.  Years are
counted from 1 March here, so that a leap day is the last day of its year, and in
eras of 400 years, all of which have the same number of days.
-/

namespace SourceIndex

/-- A day of the Gregorian calendar. -/
structure CalendarDay where
  year : Int
  month : Nat
  day : Nat
  deriving DecidableEq, Repr

namespace CalendarDay

/-- The number of days of an era. -/
def daysPerEra : Nat := 146097

/-- The number of days from the start of the era of the year zero to the start of
1970. -/
def daysToEpoch : Int := 719468

/-- The year of an era in which a day of the era falls. -/
def yearOfEra (dayOfEra : Nat) : Nat :=
  (dayOfEra - dayOfEra / 1460 + dayOfEra / 36524 - dayOfEra / 146096) / 365

/-- The days of an era in front of one of its years. -/
def daysBeforeYear (year : Nat) : Nat :=
  365 * year + year / 4 - year / 100

/-- The day that is a number of days after the first of 1970. -/
def ofEpochDays (days : Int) : CalendarDay :=
  let shifted := days + daysToEpoch
  let era := shifted.fdiv daysPerEra
  let dayOfEra := (shifted.fmod daysPerEra).toNat
  let year := yearOfEra dayOfEra
  let dayOfYear := dayOfEra - daysBeforeYear year
  let month := (5 * dayOfYear + 2) / 153
  let day := dayOfYear - (153 * month + 2) / 5 + 1
  if month < 10 then { year := era * 400 + year, month := month + 3, day }
  else { year := era * 400 + year + 1, month := month - 9, day }

/-- The first year that has a text. -/
def firstYear : Int := -262143

/-- The last year that has a text. -/
def lastYear : Int := 262142

end CalendarDay

namespace Moment

/-- A year: four digits, and a sign if it is not among the years 0 to 9999. -/
def yearText (year : Int) : String :=
  if year < 0 then "-" ++ Decimal.padded 4 year.natAbs
  else if 9999 < year then "+" ++ Decimal.padded 4 year.natAbs
  else Decimal.padded 4 year.natAbs

/-- The number of seconds of a day. -/
def secondsPerDay : Nat := 86400

/-- The text of a moment in universal time; none in years that have no text. -/
def text? (seconds : Int) : Option String :=
  let date := CalendarDay.ofEpochDays (seconds.fdiv secondsPerDay)
  let time := (seconds.fmod secondsPerDay).toNat
  if date.year < CalendarDay.firstYear ∨ CalendarDay.lastYear < date.year then none
  else
    some (yearText date.year ++ "-" ++ Decimal.padded 2 date.month ++ "-" ++ Decimal.padded 2 date.day ++ "T" ++
      Decimal.padded 2 (time / 3600) ++ ":" ++ Decimal.padded 2 (time / 60 % 60) ++ ":" ++ Decimal.padded 2 (time % 60) ++
      "+00:00")

end Moment

end SourceIndex
